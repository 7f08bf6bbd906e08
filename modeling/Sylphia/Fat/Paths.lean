import Sylphia.Fat.Names

/-!
# Directories that are made on the way

`EnsureDirectory` goes along a path as far as there are directories, and makes the others.
Only the first of these gets its entry in a directory that has entries already.
-/

namespace Sylphia

open Bytes WriteLog Chain FAT32Driver

/-- The first segment of a path. -/
def segment (path : List Byte) : List Byte := (path.takeWhile (· ≠ 0x2F#8)).take 15

/-- What is behind the first segment of a path and a slash. -/
def behind (path : List Byte) : List Byte :=
  let rest := path.drop (segment path).length
  if rest.head? = some 0x2F#8 then rest.drop 1 else rest

/-- The segments of a path up to an empty one, for so many rounds. -/
def segments : Nat → List Byte → List (List Byte)
  | 0, _ => []
  | n + 1, path => if segment path = [] then [] else segment path :: segments n (behind path)

/-- How far a path leads: to a directory, to a file on the way, or to a directory in which
the next segment is missing. -/
inductive Walk
  | found (cluster : Nat)
  | blocked
  | missing (rounds : Nat) (path : List Byte) (cluster : Nat)
  deriving DecidableEq, Repr

namespace FAT32Driver

/-- The way of `EnsureDirectory` through the directories that there are. -/
def walk (fs : FAT32Driver) (dev : BlockDevice) : Nat → List Byte → Nat → Walk
  | 0, _, current => .found current
  | n + 1, path, current =>
    if segment path = [] then .found current
    else
      match fs.findDirectoryEntry dev (segment path) current with
      | some entry =>
        if entry.isDirectory then walk fs dev n (behind path) entry.firstCluster else .blocked
      | none => .missing (n + 1) path current

/-- The way of `EnsureDirectory` from the root directory. -/
def walkPath (fs : FAT32Driver) (dev : BlockDevice) (path : List Byte) : Walk :=
  fs.walk dev path.length (if path.head? = some 0x2F#8 then path.drop 1 else path) fs.rootClus

end FAT32Driver

section Walk

variable {fs : FAT32Driver} {dev : BlockDevice} {path : List Byte} {n c current : Nat}

/-- One round of `EnsureDirectory`. -/
theorem ensureLoop_succ : fs.ensureLoop (n + 1) dev path current =
    if segment path = [] then (current, dev)
    else
      match fs.findDirectoryEntry dev (segment path) current with
      | some entry =>
        if entry.isDirectory then fs.ensureLoop n dev (behind path) entry.firstCluster else (0, dev)
      | none =>
        let (newCluster, dev) := fs.createDirectory dev (to83Format (segment path)) current
        if newCluster = 0 then (0, dev) else fs.ensureLoop n dev (behind path) newCluster := by
  rw [ensureLoop]
  by_cases hpath : path = []
  · subst hpath
    rfl
  · rw [if_neg hpath]
    rfl

theorem ensureLoop_walk : fs.ensureLoop n dev path current =
    match fs.walk dev n path current with
    | .found c => (c, dev)
    | .blocked => (0, dev)
    | .missing m rest c => fs.ensureLoop m dev rest c := by
  induction n generalizing path current with
  | zero => rfl
  | succ n ih =>
    rw [walk]
    by_cases hseg : segment path = []
    · rw [if_pos hseg, ensureLoop_succ, if_pos hseg]
    · rw [if_neg hseg]
      cases he : fs.findDirectoryEntry dev (segment path) current with
      | none => rfl
      | some entry =>
        rw [ensureLoop_succ, if_neg hseg, he]
        dsimp only
        split
        · exact ih
        · rfl

/-- The entry that `FindDirectoryEntry` finds in a directory. -/
theorem findDirectoryEntry_eq (h : NamedVolume fs (fs.view dev.store))
    (hd : IsDirectory fs (fs.view dev.store) (fs.directoryOf c)) (name : List Byte) :
    fs.findDirectoryEntry dev name c =
      ((fs.view dev.store).find name (fs.slots [fs.directoryOf c])).map
        (fs.view dev.store).entry := by
  have hc := h.directory_chain hd
  rw [findDirectoryEntry, findSlot, findLoop_eq hc, List.take_of_length_le (by simp)]
  cases hfind : (fs.view dev.store).find name (fs.slots [fs.directoryOf c]) with
  | none => rfl
  | some s =>
    rw [Option.map_some, Option.map_some, slotEntry_eq hc (live_subset _ _ s (mem_of_find hfind))]

/-- The way leads through directories. -/
theorem walk_directory (h : NamedVolume fs (fs.view dev.store))
    (hd : IsDirectory fs (fs.view dev.store) (fs.directoryOf current)) :
    match fs.walk dev n path current with
    | .found c => IsDirectory fs (fs.view dev.store) (fs.directoryOf c)
    | .blocked => True
    | .missing m rest c => IsDirectory fs (fs.view dev.store) (fs.directoryOf c) ∧
        segment rest ≠ [] ∧ fs.findDirectoryEntry dev (segment rest) c = none ∧ 0 < m := by
  induction n generalizing path current with
  | zero => exact hd
  | succ n ih =>
    rw [walk]
    split_ifs with hseg
    · exact hd
    · cases he : fs.findDirectoryEntry dev (segment path) current with
      | none => exact ⟨hd, hseg, he, Nat.succ_pos n⟩
      | some entry =>
        dsimp only
        split_ifs with hdir
        · refine ih ?_
          rw [findDirectoryEntry_eq h hd] at he
          obtain ⟨s, hfind, rfl⟩ := Option.map_eq_some_iff.mp he
          by_cases h0 : ((fs.view dev.store).entry s).firstCluster = 0
          · rw [h0]
            exact .root
          · rw [directoryOf, if_neg h0]
            exact .sub hd (h.directory_chain hd) (mem_of_find hfind) hdir
              (isDot_of_isNameEqual (name_of_find hfind)) h0
        · trivial

end Walk

/-! ## New directories -/

/-- The first byte of a name that is neither a free slot's nor a deleted entry's. -/
def StartsName (name : List Byte) : Prop := name.getD 0 0 ≠ 0 ∧ name.getD 0 0 ≠ 0xE5#8

instance (name : List Byte) : Decidable (StartsName name) := inferInstanceAs (Decidable (_ ∧ _))

section Ensure

variable {fs : FAT32Driver} {dev : BlockDevice} {V : View} {name path src : List Byte}
  {n c d current : Nat}

theorem length_to83Format (src : List Byte) : (to83Format src).length = 11 := by
  simp only [to83Format, padTo, List.length_append, List.length_map, List.length_take,
    List.length_replicate]
  omega

theorem not_dotName_to83Format (src : List Byte) : ¬DotName (to83Format src) := by
  have hhead := head?_to83Format src
  rintro (hdot | hdot) <;>
  · rw [hdot] at hhead
    exact hhead rfl

/-- Where an entry for a new name may go in an empty directory. -/
theorem EmptyDirectory.mayAdd (he : EmptyDirectory fs V d) (hd : IsDirectory fs V d ∨ Stray fs V d)
    (hname : StartsName (to83Format src)) : MayAdd fs V d (to83Format src) := by
  rcases hd with hd | hd
  · refine Or.inl ⟨hd, length_to83Format src, hname, fun ds hc t ht heq => ?_⟩
    rw [hc.unique he.chain] at ht
    have hdot := he.live t ht
    rw [DirectoryEntry.isDot, heq, Bool.or_eq_true, beq_iff_eq, beq_iff_eq] at hdot
    exact not_dotName_to83Format src hdot
  · exact Or.inr ⟨hd, length_to83Format src⟩

theorem EmptyDirectory.ne_zero (he : EmptyDirectory fs V d) : d ≠ 0 := by
  rintro rfl
  exact absurd he.chain.valid_head.1 (by decide)

/-- Nothing is found in an empty directory. -/
theorem EmptyDirectory.find_slots {V : View} (he : EmptyDirectory fs V c) (name : List Byte) :
    V.find name (fs.slots [c]) = none := by
  rw [View.find, List.find?_eq_none]
  intro t ht hmatch
  have hdot := he.live t ht
  rw [isDot_of_isNameEqual hmatch] at hdot
  cases hdot

theorem EmptyDirectory.findSlot_none (he : EmptyDirectory fs (fs.view dev.store) c) :
    fs.findSlot dev name c = none := by
  rw [findSlot_eq he.chain, List.take_of_length_le (by simp), he.find_slots]

theorem EmptyDirectory.find_none (he : EmptyDirectory fs (fs.view dev.store) c) :
    fs.findDirectoryEntry dev name c = none := by
  rw [findDirectoryEntry, he.findSlot_none, Option.map_none]

/-- Where `EnsureDirectory` gets to: nowhere, or to a directory that it has made. -/
def Made (fs : FAT32Driver) (r : Nat × BlockDevice) : Prop :=
  NamedVolume fs (fs.view r.2.store) ∧ (r.1 = 0 ∨ EmptyDirectory fs (fs.view r.2.store) r.1 ∧
    (IsDirectory fs (fs.view r.2.store) r.1 ∨ Stray fs (fs.view r.2.store) r.1))

/-- A segment is made, and the loop goes on in the new directory. -/
private theorem made_of_create (hgeo : Geometry fs) (h : NamedVolume fs (fs.view dev.store))
    (hadd : MayAdd fs (fs.view dev.store) (fs.directoryOf current) (to83Format src))
    (hrest : ∀ {dev : BlockDevice} {c : Nat}, NamedVolume fs (fs.view dev.store) →
      EmptyDirectory fs (fs.view dev.store) c →
      (IsDirectory fs (fs.view dev.store) c ∨ Stray fs (fs.view dev.store) c) →
      Made fs (fs.ensureLoop n dev path c)) :
    Made fs (let (newCluster, dev) := fs.createDirectory dev (to83Format src) current
      if newCluster = 0 then (0, dev) else fs.ensureLoop n dev path newCluster) := by
  have hnamed := createDirectory_named hgeo h hadd
  have hempty := createDirectory_empty hgeo h hadd (not_dotName_to83Format src)
  dsimp only at hempty ⊢
  split_ifs with h0
  · exact ⟨hnamed, Or.inl rfl⟩
  · obtain ⟨he, hd⟩ := hempty h0
    exact hrest hnamed he hd

/-- In a new directory every segment is made. -/
theorem ensureLoop_made (hgeo : Geometry fs) (h : NamedVolume fs (fs.view dev.store))
    (he : EmptyDirectory fs (fs.view dev.store) c)
    (hd : IsDirectory fs (fs.view dev.store) c ∨ Stray fs (fs.view dev.store) c)
    (hnames : ∀ seg ∈ segments n path, StartsName (to83Format seg)) :
    Made fs (fs.ensureLoop n dev path c) := by
  induction n generalizing dev path c with
  | zero => exact ⟨h, Or.inr ⟨he, hd⟩⟩
  | succ n ih =>
    rw [ensureLoop_succ]
    split_ifs with hseg
    · exact ⟨h, Or.inr ⟨he, hd⟩⟩
    · rw [segments, if_neg hseg, List.forall_mem_cons] at hnames
      rw [he.find_none]
      refine made_of_create hgeo h ?_ fun h he hd => ih h he hd hnames.2
      rw [directoryOf_of_chain he.chain]
      exact he.mayAdd hd hnames.1

/-- The first segment that is missing has a new name, in the form in which it is written. -/
def FreshPath (fs : FAT32Driver) (dev : BlockDevice) (path : List Byte) : Prop :=
  match fs.walkPath dev path with
  | .missing n rest c =>
    FatCall.NewName fs (fs.view dev.store) (fs.directoryOf c) (to83Format (segment rest)) ∧
      ∀ seg ∈ segments (n - 1) (behind rest), StartsName (to83Format seg)
  | _ => True

/-- The file that `CopyFileFrom` writes has a new name in its directory, if that is there. -/
def FreshCopy (fs : FAT32Driver) (dev : BlockDevice) (dstPath : List Byte) : Prop :=
  let name := to83Format (fileNamePart dstPath)
  if dirPart dstPath = [] then FatCall.NewName fs (fs.view dev.store) fs.rootClus name
  else FreshPath fs dev (dirPart dstPath) ∧ StartsName name ∧
    ∀ c, fs.walkPath dev (dirPart dstPath) = .found c →
      FatCall.NewName fs (fs.view dev.store) (fs.directoryOf c) name

theorem directoryOf_root (h : SoundVolume fs V) : fs.directoryOf fs.rootClus = fs.rootClus := by
  obtain ⟨rs, hroot⟩ := h.directory_chain .root
  exact directoryOf_of_chain hroot

/-- `EnsureDirectory` finds a directory and changes nothing, or it makes one. -/
theorem ensureDirectory_cases (hgeo : Geometry fs) (h : NamedVolume fs (fs.view dev.store))
    (hpath : FreshPath fs dev path) :
    (∃ c, fs.walkPath dev path = .found c ∧ fs.ensureDirectory dev path = (c, dev) ∧
      IsDirectory fs (fs.view dev.store) (fs.directoryOf c)) ∨
    Made fs (fs.ensureDirectory dev path) := by
  have hroot : IsDirectory fs (fs.view dev.store) (fs.directoryOf fs.rootClus) := by
    rw [directoryOf_root h.sound]
    exact .root
  have hwalk := @walk_directory fs dev (if path.head? = some 0x2F#8 then path.drop 1 else path)
    path.length fs.rootClus h hroot
  rw [FreshPath] at hpath
  rw [ensureDirectory, ensureLoop_walk]
  rw [walkPath] at hpath ⊢
  cases hw : fs.walk dev path.length (if path.head? = some 0x2F#8 then path.drop 1 else path)
      fs.rootClus with
  | found c =>
    rw [hw] at hwalk
    exact Or.inl ⟨c, rfl, rfl, hwalk⟩
  | blocked => exact Or.inr ⟨h, Or.inl rfl⟩
  | missing n rest c =>
    rw [hw] at hwalk hpath
    obtain ⟨hd, hseg, hnone, hn⟩ := hwalk
    obtain ⟨m, rfl⟩ := Nat.exists_eq_succ_of_ne_zero (Nat.pos_iff_ne_zero.mp hn)
    refine Or.inr ?_
    dsimp only
    rw [ensureLoop_succ, if_neg hseg, hnone]
    exact made_of_create hgeo h (Or.inl ⟨hd, hpath.1⟩) fun h he hd =>
      ensureLoop_made hgeo h he hd hpath.2

theorem ensureDirectory_named (hgeo : Geometry fs) (h : NamedVolume fs (fs.view dev.store))
    (hpath : FreshPath fs dev path) :
    NamedVolume fs (fs.view (fs.ensureDirectory dev path).2.store) := by
  rcases ensureDirectory_cases hgeo h hpath with ⟨c, -, heq, -⟩ | ⟨h', -⟩
  · rw [heq]
    exact h
  · exact h'

theorem copyFileFrom_named {dstPath : List Byte} (hgeo : Geometry fs)
    (h : NamedVolume fs (fs.view dev.store)) (hcopy : FreshCopy fs dev dstPath)
    (srcFs : FAT32Driver) (srcDev : BlockDevice) (srcPath : List Byte) (memory : Option Buffer) :
    NamedVolume fs (fs.view (fs.copyFileFrom dev srcFs srcDev srcPath dstPath memory).2.store) := by
  cases memory with
  | none =>
    rw [copyFileFrom]
    split_ifs <;> exact h
  | some buf =>
    rw [copyFileFrom]
    dsimp only
    rw [FreshCopy] at hcopy
    by_cases hdir : dirPart dstPath = []
    · rw [if_pos hdir] at hcopy
      rw [if_pos hdir]
      split_ifs with hsize hcount hfail
      · exact h
      · exact h
      · exact h
      · exact writeFile_named hgeo h (Or.inl ⟨.root, hcopy⟩)
    · rw [if_neg hdir] at hcopy
      obtain ⟨hpath, hname, hnew⟩ := hcopy
      rw [if_neg hdir]
      split_ifs with hsize hcount hfail
      · exact h
      · exact h
      · exact ensureDirectory_named hgeo h hpath
      · rcases ensureDirectory_cases hgeo h hpath with ⟨c, hwalk, heq, hd⟩ | ⟨h', hmade⟩
        · rw [heq]
          exact writeFile_named hgeo h (Or.inl ⟨hd, hnew c hwalk⟩)
        · obtain ⟨he, hd⟩ := hmade.resolve_left fun h0 => hfail ⟨hdir, h0⟩
          refine writeFile_named hgeo h' ?_
          rw [directoryOf_of_chain he.chain]
          exact he.mayAdd hd hname

end Ensure

end Sylphia
