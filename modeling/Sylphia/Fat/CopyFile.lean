import Sylphia.Fat.NewEntry

/-!
# Files that are copied

`CopyFileFrom` makes the directories of the destination path, leaves the file to `WriteFile`
and reports success, whether there is a new entry afterwards or not.
-/

namespace Sylphia

open Bytes WriteLog Chain FAT32Driver

/-- A name whose entry is written in the form in which it is looked up. -/
structure Legible (name : List Byte) : Prop where
  convert : convertName name = to83Format name
  starts : StartsName (to83Format name)

instance (name : List Byte) : Decidable (Legible name) :=
  decidable_of_iff (_ ∧ _) ⟨fun h => ⟨h.1, h.2⟩, fun h => ⟨h.convert, h.starts⟩⟩

/-- The names along which `CopyFileFrom` makes directories. -/
def directoryNames (dstPath : List Byte) : List (List Byte) :=
  segments (dirPart dstPath).length (relative (dirPart dstPath))

/-- A sound volume whose directories have no more clusters than a search goes through. -/
structure Searchable (fs : FAT32Driver) (V : View) : Prop where
  sound : SoundVolume fs V
  short : ∀ d ds, IsDirectory fs V d → ClusterChain fs V d ds → ds.take 10001 = ds

theorem WellFormed.searchable {fs : FAT32Driver} {d : Disk} (h : WellFormed fs d) :
    Searchable fs (fs.view d) := ⟨h.sound, fun _ _ hd hc => h.take_chain hd hc⟩

/-- The way of `EnsureDirectory` ends at a file, at the cluster number 0, or for want of a cluster
for each directory that is missing. -/
def Blocked (fs : FAT32Driver) (dev : BlockDevice) : List (List Byte) → Nat → Prop
  | [], d => d = 0
  | x :: xs, d =>
    match fs.findDirectoryEntry dev x d with
    | some e => e.isDirectory = false ∨ Blocked fs dev xs e.firstCluster
    | none => (fs.view dev.store).freeClusters.length < xs.length + 1

/-- There are clusters for what is missing and for the file. In the first directory that gets an
entry there is a slot for it, and if that is the entry of the file, no entry before it has the
name. -/
def HasPlace (fs : FAT32Driver) (dev : BlockDevice) (file : List Byte) (size : Nat) :
    List (List Byte) → Nat → Prop
  | [], d => fs.clustersFor size ≤ (fs.view dev.store).freeClusters.length ∧
      ∃ i, FirstFree fs (fs.view dev.store) (fs.directoryOf d) i ∧
        (fs.view dev.store).find file (slotsBefore (fs.directoryOf d) i) = none
  | x :: xs, d =>
    match fs.findDirectoryEntry dev x d with
    | some e => HasPlace fs dev file size xs e.firstCluster
    | none => FreeSlot fs (fs.view dev.store) (fs.directoryOf d) ∧
        xs.length + 1 + fs.clustersFor size ≤ (fs.view dev.store).freeClusters.length

/-- A search in the directory finds this entry under the name, and nothing under others. -/
def OnlyEntry (fs : FAT32Driver) (dev : BlockDevice) (d : Nat) (x : List Byte)
    (e : DirectoryEntry) : Prop :=
  ∀ y, (convertName y = convertName x →
      ∃ s, fs.findSlot dev y d = some s ∧ fs.slotEntry dev s = e) ∧
    (convertName y ≠ convertName x → fs.findSlot dev y d = none)

namespace FAT32Driver

/-- `EnsureDirectory` along a list of names, and `WriteFile` in the directory that it gives. -/
def writeAlong (fs : FAT32Driver) (file : List Byte) (data : Buffer) (size : Nat)
    (names : List (List Byte)) (dev : BlockDevice) (current : Nat) : Bool × BlockDevice :=
  let (parentCluster, dev) := fs.ensureAlong names dev current
  if parentCluster = 0 then (false, dev)
  else (true, fs.writeFile dev (to83Format file) data size parentCluster)

/-- `ReadFile` along a list of names. -/
def readAlong (fs : FAT32Driver) (dev : BlockDevice) (names : List (List Byte))
    (current bufferSize : Nat) : Nat × List Byte :=
  match (fs.resolveAlong dev true names current).map (fs.slotEntry dev) with
  | none => (0, [])
  | some entry =>
    if entry.fileSize > bufferSize then (0, [])
    else (entry.fileSize, fs.readLoop dev entry.fileSize entry.fileSize entry.firstCluster)

end FAT32Driver

section Along

variable {fs : FAT32Driver} {dev : BlockDevice} {x : List Byte} {xs : List (List Byte)} {d n : Nat}
  {s : Slot}

/-- Names of the same form lead to the same slot. -/
theorem resolveAlong_congr {ys : List (List Byte)} (h : xs.map convertName = ys.map convertName)
    (ends : Bool) : fs.resolveAlong dev ends xs d = fs.resolveAlong dev ends ys d := by
  induction xs generalizing ys d with
  | nil =>
    have hnil : ys = [] := List.map_eq_nil_iff.mp h.symm
    rw [hnil]
  | cons x xs ih =>
    obtain ⟨y, ys, rfl, hy, hys⟩ := List.map_eq_cons_iff.mp h.symm
    have hends : ys = [] ↔ xs = [] := by rw [← List.map_eq_nil_iff, hys, List.map_eq_nil_iff]
    rw [resolveAlong, resolveAlong, findSlot_congr hy]
    simp only [hends, ih hys.symm]

theorem readAlong_congr {ys : List (List Byte)} (h : xs.map convertName = ys.map convertName) :
    fs.readAlong dev xs d n = fs.readAlong dev ys d n := by
  rw [readAlong, readAlong, resolveAlong_congr h]

theorem readAlong_none (h : fs.findSlot dev x d = none) :
    fs.readAlong dev (x :: xs) d n = (0, []) := by
  rw [readAlong, resolveAlong, h]
  rfl

theorem resolveAlong_cons (h : fs.findSlot dev x d = some s)
    (hdir : (fs.slotEntry dev s).isDirectory = true) (hxs : xs ≠ []) :
    fs.resolveAlong dev true (x :: xs) d =
      fs.resolveAlong dev true xs (fs.directoryOf (fs.slotEntry dev s).firstCluster) := by
  rw [resolveAlong, h]
  dsimp only
  rw [if_neg fun hlast => hxs hlast.1, hdir, Bool.not_true, if_neg Bool.false_ne_true]

theorem readAlong_cons (h : fs.findSlot dev x d = some s)
    (hdir : (fs.slotEntry dev s).isDirectory = true) (hxs : xs ≠ []) :
    fs.readAlong dev (x :: xs) d n =
      fs.readAlong dev xs (fs.directoryOf (fs.slotEntry dev s).firstCluster) n := by
  rw [readAlong, readAlong, resolveAlong_cons h hdir hxs]

/-- A file does not lead on. -/
theorem readAlong_blocked (h : fs.findSlot dev x d = some s)
    (hdir : (fs.slotEntry dev s).isDirectory = false) (hxs : xs ≠ []) :
    fs.readAlong dev (x :: xs) d n = (0, []) := by
  rw [readAlong, resolveAlong, h]
  dsimp only
  rw [if_neg fun hlast => hxs hlast.1, hdir, Bool.not_false, if_pos rfl]
  rfl

theorem readAlong_no_directory (h : ∀ s, fs.findSlot dev x d = some s →
    (fs.slotEntry dev s).isDirectory = false) (hxs : xs ≠ []) :
    fs.readAlong dev (x :: xs) d n = (0, []) := by
  cases hs : fs.findSlot dev x d with
  | none => exact readAlong_none hs
  | some s => exact readAlong_blocked hs (h s hs) hxs

theorem resolveAlong_last : fs.resolveAlong dev true [x] d = fs.findSlot dev x d := by
  rw [resolveAlong]
  cases fs.findSlot dev x d with
  | none => rfl
  | some s => exact if_pos ⟨rfl, rfl⟩

theorem readAlong_last (h : fs.findSlot dev x d = some s) : fs.readAlong dev [x] d n =
    if (fs.slotEntry dev s).fileSize > n then (0, [])
    else ((fs.slotEntry dev s).fileSize, fs.readLoop dev (fs.slotEntry dev s).fileSize
      (fs.slotEntry dev s).fileSize (fs.slotEntry dev s).firstCluster) := by
  rw [readAlong, resolveAlong_last, h]
  rfl

variable {file : List Byte} {data : Buffer} {size c : Nat} {e : DirectoryEntry} {dev₁ : BlockDevice}

theorem writeAlong_fst : (fs.writeAlong file data size xs dev d).1 = true ↔
    (fs.ensureAlong xs dev d).1 ≠ 0 := by
  rw [writeAlong]
  dsimp only
  by_cases h0 : (fs.ensureAlong xs dev d).1 = 0
  · rw [if_pos h0]
    exact iff_of_false Bool.false_ne_true (not_not.mpr h0)
  · rw [if_neg h0]
    exact iff_of_true rfl h0

theorem writeAlong_nil (h0 : d ≠ 0) : fs.writeAlong file data size [] dev d =
    (true, fs.writeFile dev (to83Format file) data size d) := if_neg h0

/-- The way goes on in a directory that is there. -/
theorem writeAlong_directory (h : fs.findDirectoryEntry dev x d = some e)
    (hdir : e.isDirectory = true) : fs.writeAlong file data size (x :: xs) dev d =
      fs.writeAlong file data size xs dev e.firstCluster := by
  rw [writeAlong, ensureAlong, h]
  dsimp only
  rw [if_pos hdir]
  rfl

theorem writeAlong_file (h : fs.findDirectoryEntry dev x d = some e)
    (hfile : e.isDirectory = false) : fs.writeAlong file data size (x :: xs) dev d =
      (false, dev) := by
  rw [writeAlong, ensureAlong, h]
  dsimp only
  rw [hfile, if_neg Bool.false_ne_true]
  rfl

/-- The way goes on in a directory that is made. -/
theorem writeAlong_created (h : fs.findDirectoryEntry dev x d = none)
    (hcreate : fs.createDirectory dev (to83Format x) d = (c, dev₁)) (h0 : c ≠ 0) :
    fs.writeAlong file data size (x :: xs) dev d = fs.writeAlong file data size xs dev₁ c := by
  rw [writeAlong, ensureAlong, h, hcreate]
  dsimp only
  rw [if_neg h0]
  rfl

theorem writeAlong_full (h : fs.findDirectoryEntry dev x d = none)
    (hcreate : fs.createDirectory dev (to83Format x) d = (0, dev)) :
    fs.writeAlong file data size (x :: xs) dev d = (false, dev) := by
  rw [writeAlong, ensureAlong, h, hcreate]
  rfl

end Along

/-! ## New entries -/

section New

variable {fs : FAT32Driver} {dev dev' : BlockDevice} {V W : View} {x y file : List Byte}
  {data : Buffer} {xs : List (List Byte)} {b c d i n size : Nat} {attr : Byte} {ds : List Nat}
  {s : Slot}

namespace Legible

variable (hx : Legible x)
include hx

theorem isNameEqual_iff (name : List Byte) :
    isNameEqual (DirectoryEntry.create (to83Format x) b size attr).name name = true ↔
      convertName name = convertName x := by
  rw [DirectoryEntry.name_create (length_to83Format x), isNameEqual, beq_iff_eq, hx.convert,
    eq_comm]

theorem isLive (hattr : attr ≠ 0x0F#8) :
    (DirectoryEntry.create (to83Format x) b size attr).isLive = true := by
  rw [DirectoryEntry.isLive, DirectoryEntry.first_create (length_to83Format x),
    DirectoryEntry.attr_create (length_to83Format x), Bool.and_eq_true, Bool.and_eq_true,
    bne_iff_ne, bne_iff_ne, bne_iff_ne]
  exact ⟨hx.starts, hattr⟩

/-- The new entry is found. -/
theorem found (hattr : attr ≠ 0x0F#8) (hi : FirstFree fs V d i) (hc : ClusterChain fs V d ds)
    (hshort : ds.take 10001 = ds) (hnone : V.find x (slotsBefore d i) = none)
    (hw : Within fs (V.setSlot ⟨d, i⟩ (.create (to83Format x) b size attr)) []
      (fs.view dev'.store)) :
    fs.findSlot dev' x d = some ⟨d, i⟩ ∧
      fs.slotEntry dev' ⟨d, i⟩ = .create (to83Format x) b size attr := by
  have hlen := DirectoryEntry.length_create (length_to83Format x) b size attr
  obtain ⟨hfind, hentry⟩ := hw.lookup x hc hshort
  constructor
  · rw [hfind, hi.find_new hc hlen (hx.isLive hattr) ((hx.isNameEqual_iff x).mpr rfl) hnone]
  · rw [hentry _ (mem_slots.mpr ⟨hc.head_mem, hi.lt⟩), (entry_setSlot V _ hlen).1]

end Legible

/-- The new file is read. -/
theorem readAlong_new (hgeo : Geometry fs) (h32 : size < 2 ^ 32) (hb : b < 2 ^ 32)
    (hdata : HasData fs (fs.view dev.store) b data size) (hs : fs.findSlot dev y d = some s)
    (hentry : fs.slotEntry dev s = .create (to83Format file) b size 0x20#8) :
    fs.readAlong dev [y] d n = if size > n then (0, []) else (size, slice data 0 size) := by
  obtain ⟨cs, hc, hlen, hstored⟩ := hdata
  have hname := length_to83Format file
  rw [readAlong_last hs, hentry, DirectoryEntry.fileSize_create hname, Nat.mod_eq_of_lt h32,
    DirectoryEntry.firstCluster_create hname hb, readLoop_stored hgeo hc hlen.le hstored le_rfl]

/-- A new directory has nothing to read. -/
theorem readAlong_made (hs : fs.findSlot dev y d = some s)
    (hentry : fs.slotEntry dev s = .create (to83Format x) b 0 0x10#8) :
    fs.readAlong dev [y] d n = (0, []) := by
  rw [readAlong_last hs, hentry, DirectoryEntry.fileSize_create (length_to83Format x), Nat.zero_mod,
    if_neg (Nat.not_lt_zero n)]
  rfl

theorem Enters.trans_free {e : DirectoryEntry} {cs : List Nat} {U : View} (h : Enters fs U V d e)
    (h' : Within fs V cs W) (hfree : ∀ x ∈ cs, U.fat x = 0) : Enters fs U W d e :=
  h.imp (fun h => ⟨h.1, h.2.trans_free h' hfree⟩) fun ⟨i, hi, h⟩ => ⟨i, hi, h.trans_free h' hfree⟩

/-- The first entry of a new directory is found, and nothing else. -/
theorem EmptyDirectory.entered (he : EmptyDirectory fs V c) (hended : V.Ended (fs.slots [c]))
    (hslot : FreeSlot fs V c) (hx : Legible x) (hattr : attr ≠ 0x0F#8)
    (h : Enters fs V (fs.view dev'.store) c (.create (to83Format x) b size attr)) :
    Within fs V [c] (fs.view dev'.store) ∧
      OnlyEntry fs dev' c x (.create (to83Format x) b size attr) := by
  obtain ⟨i, hi, hw⟩ := h.resolve_left fun h => h.1 hslot
  refine ⟨.of_one he.chain (hw.same c (fat_ne_zero he.chain he.chain.head_mem) List.not_mem_nil).1
    fun y hy hne => ?_, fun y => ⟨fun hy => ?_, fun hy => ?_⟩⟩
  · obtain ⟨hfat, hdata⟩ := hw.same y hy List.not_mem_nil
    exact ⟨hfat, hdata.trans (View.setData_data_of_ne V hne _)⟩
  · obtain ⟨hfound, hentry⟩ := hx.found hattr hi he.chain rfl
      (hi.find_none he.chain (he.find_slots x)) hw
    exact ⟨_, (findSlot_congr hy).trans hfound, hentry⟩
  · have hlen := DirectoryEntry.length_create (length_to83Format x) b size attr
    have hother : isNameEqual (DirectoryEntry.create (to83Format x) b size attr).name y = false :=
      Bool.eq_false_iff.mpr fun hname => hy ((hx.isNameEqual_iff y).mp hname)
    have hc : ClusterChain fs (V.setSlot ⟨c, i⟩ (.create (to83Format x) b size attr)) c [c] :=
      he.chain
    rw [(hw.lookup y hc rfl).1, hi.find_other he.chain hlen (hx.isLive hattr) hended hother,
      he.find_slots]

theorem isDirectory_file (file : List Byte) :
    (DirectoryEntry.create (to83Format file) b size 0x20#8).isDirectory = false := by
  rw [DirectoryEntry.isDirectory, DirectoryEntry.attr_create (length_to83Format file)]
  rfl

namespace OnlyEntry

/-- In a directory with one file, that is all there is to read. -/
theorem readAlong_file (h : OnlyEntry fs dev d file (.create (to83Format file) b size 0x20#8))
    (hgeo : Geometry fs) (h32 : size < 2 ^ 32) (hb : b < 2 ^ 32)
    (hdata : HasData fs (fs.view dev.store) b data size) (names : List (List Byte)) (n : Nat) :
    fs.readAlong dev names d n = if names.map convertName = [convertName file] then
      if size > n then (0, []) else (size, slice data 0 size) else (0, []) := by
  cases names with
  | nil =>
    rw [if_neg fun h => List.cons_ne_nil _ _ h.symm]
    rfl
  | cons y names =>
    have hsame : (y :: names).map convertName = [convertName file] ↔
        convertName y = convertName file ∧ names = [] := by
      rw [List.map_cons, List.cons.injEq, List.map_eq_nil_iff]
    by_cases hy : convertName y = convertName file
    · obtain ⟨s, hs, hentry⟩ := (h y).1 hy
      by_cases hlast : names = []
      · rw [if_pos (hsame.mpr ⟨hy, hlast⟩), hlast, readAlong_new hgeo h32 hb hdata hs hentry]
      · rw [if_neg fun h => hlast (hsame.mp h).2,
          readAlong_blocked hs (hentry ▸ isDirectory_file file) hlast]
    · rw [if_neg fun h => hy (hsame.mp h).1, readAlong_none ((h y).2 hy)]

/-- In a directory with one directory, what is read is in that. -/
theorem readAlong_directory (h : OnlyEntry fs dev d x (.create (to83Format x) c 0 0x10#8))
    (hc : c < 2 ^ 32) (y : List Byte) (ys : List (List Byte)) (n : Nat) :
    fs.readAlong dev (y :: ys) d n = if convertName y = convertName x ∧ ys ≠ [] then
      fs.readAlong dev ys (fs.directoryOf c) n else (0, []) := by
  by_cases hy : convertName y = convertName x
  · obtain ⟨s, hs, hentry⟩ := (h y).1 hy
    have hdir : (fs.slotEntry dev s).isDirectory = true := by
      rw [hentry, DirectoryEntry.isDirectory_create (length_to83Format x)]
    by_cases hlast : ys = []
    · subst hlast
      rw [if_neg fun h => h.2 rfl, readAlong_made hs hentry]
    · rw [if_pos ⟨hy, hlast⟩, readAlong_cons hs hdir hlast, hentry,
        DirectoryEntry.firstCluster_create (length_to83Format x) hc]
  · rw [if_neg fun h => hy h.1, readAlong_none ((h y).2 hy)]

end OnlyEntry

/-- The first step of a copy along names: it fails, it makes a directory, or it finds one. -/
theorem writeAlong_cases (hgeo : Geometry fs)
    (hc : ClusterChain fs (fs.view dev.store) (fs.directoryOf d) ds) :
    fs.writeAlong file data size (x :: xs) dev d = (false, dev) ∨
      (∃ c dev₁, fs.findDirectoryEntry dev x d = none ∧
        NewDirectory fs (fs.view dev.store) (fs.view dev₁.store) (fs.directoryOf d) (to83Format x)
          c ∧
        fs.writeAlong file data size (x :: xs) dev d = fs.writeAlong file data size xs dev₁ c) ∨
      ∃ s, fs.findSlot dev x (fs.directoryOf d) = some s ∧
        (fs.slotEntry dev s).isDirectory = true ∧
        fs.writeAlong file data size (x :: xs) dev d =
          fs.writeAlong file data size xs dev (fs.slotEntry dev s).firstCluster := by
  cases hfind : fs.findDirectoryEntry dev x d with
  | none =>
    obtain ⟨hcreate, -⟩ | ⟨c, dev₁, hcreate, hnew⟩ :=
      @createDirectory_new fs dev (to83Format x) d ds
      hgeo hc (length_to83Format x)
    · exact Or.inl (writeAlong_full hfind hcreate)
    · exact Or.inr (Or.inl ⟨c, dev₁, rfl, hnew,
        writeAlong_created hfind hcreate hnew.empty.ne_zero⟩)
  | some e =>
    obtain ⟨s, hs, rfl⟩ := Option.map_eq_some_iff.mp hfind
    rw [← findSlot_directoryOf] at hs
    cases hdir : (fs.slotEntry dev s).isDirectory with
    | false => exact Or.inl (writeAlong_file hfind hdir)
    | true => exact Or.inr (Or.inr ⟨s, hs, hdir, writeAlong_directory hfind hdir⟩)

/-- Directories are made in a new one, one in the other, and the file in the last of them. What is
read along other names is nothing. -/
theorem writeAlong_fresh (hgeo : Geometry fs) (hfile : Legible file) (hxs : ∀ x ∈ xs, Legible x)
    (hsize : size ≠ 0) (h32 : size < 2 ^ 32) (he : EmptyDirectory fs (fs.view dev.store) c)
    (hended : (fs.view dev.store).Ended (fs.slots [c]))
    (hslot : FreeSlot fs (fs.view dev.store) c) :
    let r := fs.writeAlong file data size xs dev c
    Within fs (fs.view dev.store) [c] (fs.view r.2.store) ∧
      ∀ names n, fs.readAlong r.2 names c n =
        if names.map convertName = (xs ++ [file]).map convertName ∧
            xs.length + fs.clustersFor size ≤ (fs.view dev.store).freeClusters.length then
          if size > n then (0, []) else (size, slice data 0 size)
        else (0, []) := by
  have hdir := directoryOf_of_chain he.chain
  have hc : ClusterChain fs (fs.view dev.store) (fs.directoryOf c) [c] := hdir.symm ▸ he.chain
  induction xs generalizing dev c with
  | nil =>
    intro r
    have hr : r = (true, fs.writeFile dev (to83Format file) data size c) :=
      writeAlong_nil he.ne_zero
    rw [hr]
    dsimp only
    rw [List.length_nil, Nat.zero_add, List.nil_append, List.map_singleton]
    obtain ⟨hless, hw⟩ | ⟨hroom, b, hb, hdata, henters⟩ := @writeFile_new fs dev (to83Format file)
      data size c [c] hgeo hc (length_to83Format file) hsize
    · refine ⟨.of_one he.chain (hw.same c (fat_ne_zero he.chain he.chain.head_mem)
        List.not_mem_nil).1 fun y hy _ => hw.same y hy List.not_mem_nil, fun names n => ?_⟩
      rw [if_neg fun h => absurd h.2 (Nat.not_le.mpr hless)]
      cases names with
      | nil => rfl
      | cons y names => exact readAlong_none ((hw.lookup y he.chain rfl).1.trans (he.find_slots y))
    · rw [hdir] at henters
      obtain ⟨hw, honly⟩ := he.entered hended hslot hfile (by decide) henters
      refine ⟨hw, fun names n => ?_⟩
      rw [honly.readAlong_file hgeo h32 hb hdata]
      exact if_congr (and_iff_left hroom).symm rfl rfl
  | cons x xs ih =>
    rw [List.forall_mem_cons] at hxs
    have hnone : fs.findDirectoryEntry dev x c = none := he.find_none
    intro r
    obtain ⟨hcreate, hfull⟩ | ⟨c₁, dev₁, hcreate, hnew⟩ := @createDirectory_new fs dev
      (to83Format x) c [c] hgeo hc (length_to83Format x)
    · have hr : r = (false, dev) := writeAlong_full hnone hcreate
      rw [hr, hfull, List.length_nil, List.length_cons]
      refine ⟨.of_one he.chain rfl fun _ _ _ => ⟨rfl, rfl⟩, fun names n => ?_⟩
      rw [if_neg fun h => by omega]
      cases names with
      | nil => rfl
      | cons y names => exact readAlong_none he.findSlot_none
    · have hr : r = fs.writeAlong file data size xs dev₁ c₁ :=
        writeAlong_created hnone hcreate hnew.empty.ne_zero
      have hdir₁ := directoryOf_of_chain hnew.empty.chain
      obtain ⟨hw, hread⟩ := ih hxs.2 hnew.empty hnew.ended hnew.slot hdir₁
        (hdir₁.symm ▸ hnew.empty.chain)
      rw [← hr] at hw hread
      have henters := hnew.enters.trans_free hw fun y hy => by
        rw [List.mem_singleton.mp hy, hnew.was_free]
      rw [hdir] at henters
      obtain ⟨hw', honly⟩ := he.entered hended hslot hxs.1 (by decide) henters
      have hlt := (ClusterChain.lt hnew.empty.chain hnew.empty.chain.head_mem).2.2.2
      have hroom := hnew.room
      refine ⟨hw', fun names n => ?_⟩
      cases names with
      | nil =>
        rw [if_neg fun h => List.cons_ne_nil _ _ h.1.symm]
        rfl
      | cons y ys =>
        rw [honly.readAlong_directory hlt, hdir₁, hread, ← ite_and]
        refine if_congr ?_ rfl rfl
        rw [List.cons_append, List.map_cons, List.map_cons, List.cons.injEq, List.length_cons]
        constructor
        · rintro ⟨⟨hy, -⟩, hys, hle⟩
          exact ⟨⟨hy, hys⟩, by omega⟩
        · rintro ⟨⟨hy, hys⟩, hle⟩
          refine ⟨⟨hy, ?_⟩, hys, by omega⟩
          rintro rfl
          simp at hys

/-- Directories are made in a new one as long as there are clusters. -/
theorem ensureAlong_fresh (hgeo : Geometry fs) (he : EmptyDirectory fs (fs.view dev.store) c) :
    (fs.ensureAlong xs dev c).1 ≠ 0 ↔ xs.length ≤ (fs.view dev.store).freeClusters.length := by
  induction xs generalizing dev c with
  | nil => exact iff_of_true he.ne_zero (Nat.zero_le _)
  | cons x xs ih =>
    have hc : ClusterChain fs (fs.view dev.store) (fs.directoryOf c) [c] :=
      (directoryOf_of_chain he.chain).symm ▸ he.chain
    obtain ⟨hcreate, hfull⟩ | ⟨c₁, dev₁, hcreate, hnew⟩ := @createDirectory_new fs dev
      (to83Format x) c [c] hgeo hc (length_to83Format x)
    · rw [ensureAlong, he.find_none, hcreate, hfull]
      exact iff_of_false (fun h => h rfl) (Nat.not_succ_le_zero _)
    · have hroom := hnew.room
      rw [ensureAlong, he.find_none, hcreate]
      dsimp only
      rw [if_neg hnew.empty.ne_zero, ih hnew.empty, List.length_cons]
      omega

/-- `EnsureDirectory` fails when its way is blocked. -/
theorem ensureAlong_blocked (hgeo : Geometry fs) (hv : SoundVolume fs (fs.view dev.store))
    (hd : IsDirectory fs (fs.view dev.store) (fs.directoryOf d)) :
    (fs.ensureAlong xs dev d).1 = 0 ↔ Blocked fs dev xs d := by
  induction xs generalizing d with
  | nil => exact Iff.rfl
  | cons x xs ih =>
    obtain ⟨ds, hc⟩ := hv.directory_chain hd
    rw [ensureAlong, Blocked]
    cases hfind : fs.findDirectoryEntry dev x d with
    | none =>
      obtain ⟨hcreate, hfull⟩ | ⟨c, dev₁, hcreate, hnew⟩ := @createDirectory_new fs dev
        (to83Format x) d ds hgeo hc (length_to83Format x)
      · dsimp only
        rw [hcreate, hfull]
        exact iff_of_true rfl (Nat.succ_pos _)
      · have hroom := hnew.room
        dsimp only
        rw [hcreate]
        dsimp only
        rw [if_neg hnew.empty.ne_zero, ← not_iff_not, ← ne_eq, ensureAlong_fresh hgeo hnew.empty]
        omega
    | some e =>
      dsimp only
      cases hdir : e.isDirectory with
      | false => exact iff_of_true rfl (Or.inl rfl)
      | true =>
        rw [if_pos rfl, ih (isDirectory_of_find hv hd hfind hdir)]
        simp

end New

/-- What a search finds of the directories of a volume is found afterwards. -/
def KeepsDirectories (fs : FAT32Driver) (V V' : View) : Prop :=
  ∀ d ds, IsDirectory fs V d → ClusterChain fs V d ds → ClusterChain fs V' d ds ∧
    ∀ name s, V.find name (fs.slots ds) = some s → (V.entry s).isDirectory = true →
      V'.find name (fs.slots ds) = some s ∧ V'.entry s = V.entry s

section Kept

variable {fs : FAT32Driver} {dev dev' : BlockDevice} {V V' : View} {x : List Byte}
  {names : List (List Byte)} {d i n : Nat} {ds cs : List Nat} {s : Slot} {e : DirectoryEntry}

theorem Within.keepsDirectories (h : Within fs V [] V') : KeepsDirectories fs V V' := by
  intro d ds _ hc
  refine ⟨h.chain_of hc, fun name s hs _ => ?_⟩
  rw [find_congr name (h.entry_of hc)]
  exact ⟨hs, h.entry_of hc s (live_subset V _ s (mem_of_find hs))⟩

/-- A new entry hides no directory. -/
theorem FirstFree.keepsDirectories (hi : FirstFree fs V d i) (hv : SoundVolume fs V)
    (hd : IsDirectory fs V d) (hc : ClusterChain fs V d ds) (he : e.length = 32)
    (hlive : e.isLive = true)
    (hnot : ∀ name s, isNameEqual e.name name = true → V.find name (fs.slots ds) = some s →
      (V.entry s).isDirectory = false)
    (hw : Within fs (V.setSlot ⟨d, i⟩ e) [] V') : KeepsDirectories fs V V' := by
  intro q qs hq hqs
  have hqs' : ClusterChain fs (V.setSlot ⟨d, i⟩ e) q qs := hqs
  refine ⟨hw.chain_of hqs', fun name s hs hdir => ?_⟩
  have hlives := mem_of_find hs
  refine ⟨?_, (hw.entry_of hqs' s (live_subset V _ s hlives)).trans
    ((entry_setSlot V _ he).2 s (hi.ne_of_live hlives))⟩
  rw [find_congr name (hw.entry_of hqs')]
  by_cases hqd : q = d
  · subst hqd
    obtain rfl := hqs.unique hc
    cases hmatch : isNameEqual e.name name with
    | true =>
      rw [hnot name s hmatch hs] at hdir
      cases hdir
    | false =>
      rw [hi.find_other hc he hlive (hv.ended q qs hd hc) hmatch]
      exact hs
  · rw [find_congr name fun t ht => (entry_setSlot V _ he).2 t ?_]
    · exact hs
    · rintro rfl
      exact hqd (hv.directory_unique hq hd hqs hc (mem_slots.mp ht).1 hc.head_mem)

/-- In a cluster in use, only the data of a directory changes. -/
def KeepsFiles (V V' : View) (d : Nat) : Prop :=
  ∀ x, V.fat x ≠ 0 → V'.fat x = V.fat x ∧ (x ≠ d → V'.data x = V.data x)

theorem Within.keepsFiles (h : Within fs V [] V') (d : Nat) : KeepsFiles V V' d := fun x hx =>
  ⟨(h.same x hx List.not_mem_nil).1, fun _ => (h.same x hx List.not_mem_nil).2⟩

theorem Within.keepsFiles_setSlot (h : Within fs (V.setSlot s e) [] V') :
    KeepsFiles V V' s.cluster := fun x hx =>
  ⟨(h.same x hx List.not_mem_nil).1, fun hne =>
    (h.same x hx List.not_mem_nil).2.trans (View.setData_data_of_ne V hne _)⟩

/-- A file that is found as it was is read as it was. -/
theorem readAlong_found {q : Nat} (hv : SoundVolume fs (fs.view dev.store))
    (hd : IsDirectory fs (fs.view dev.store) d) (hq : IsDirectory fs (fs.view dev.store) q)
    (hk : KeepsFiles (fs.view dev.store) (fs.view dev'.store) q) (hs : fs.findSlot dev x d = some s)
    (hs' : fs.findSlot dev' x d = some s) (he : fs.slotEntry dev' s = fs.slotEntry dev s)
    (hfile : (fs.slotEntry dev s).isDirectory = false) :
    fs.readAlong dev' [x] d n = fs.readAlong dev [x] d n := by
  rw [readAlong_last hs, readAlong_last hs', he]
  obtain ⟨ds, hc⟩ := hv.directory_chain hd
  obtain ⟨qs, hqs⟩ := hv.directory_chain hq
  have hfind := hs
  rw [findSlot_eq hc] at hfind
  obtain ⟨hlist, hlive⟩ := listed_of_find hd hc hfind
  rw [slotEntry_eq hc (live_subset _ _ s hlive)] at hfile ⊢
  by_cases h0 : ((fs.view dev.store).entry s).fileSize = 0
  · rw [h0]
    rfl
  · have hfirst := hv.sized s hlist hfile (Nat.pos_of_ne_zero h0)
    obtain ⟨cs, hcs⟩ := hv.chains (.slot s) _ ⟨hlist, rfl, hfirst⟩
    have hapart := hv.file_apart hq hqs hlist hfile hcs
    rw [readLoop_congr hcs (hcs.congr fun y hy => ?_) fun y hy => ?_]
    · rw [View.next, View.next, (hk y (fat_ne_zero hcs hy)).1]
    · exact (hk y (fat_ne_zero hcs hy)).2 fun heq => hapart y hy (heq ▸ hqs.head_mem)

/-- A directory that a search finds. -/
theorem isDirectory_of_slot (hv : SoundVolume fs (fs.view dev.store))
    (hd : IsDirectory fs (fs.view dev.store) d) (hs : fs.findSlot dev x d = some s)
    (hdir : (fs.slotEntry dev s).isDirectory = true) :
    IsDirectory fs (fs.view dev.store) (fs.directoryOf (fs.slotEntry dev s).firstCluster) := by
  obtain ⟨ds, hc⟩ := hv.directory_chain hd
  have hfind : fs.findDirectoryEntry dev x d = some (fs.slotEntry dev s) := by
    rw [findDirectoryEntry, hs, Option.map_some]
  exact isDirectory_of_find hv (by rwa [directoryOf_of_chain hc]) hfind hdir

/-- A directory that was found is found as it was. -/
theorem KeepsDirectories.found (hk : KeepsDirectories fs (fs.view dev.store) (fs.view dev'.store))
    (h : Searchable fs (fs.view dev.store)) (hd : IsDirectory fs (fs.view dev.store) d)
    (hs : fs.findSlot dev x d = some s) (hdir : (fs.slotEntry dev s).isDirectory = true) :
    fs.findSlot dev' x d = some s ∧ fs.slotEntry dev' s = fs.slotEntry dev s := by
  obtain ⟨ds, hc⟩ := h.sound.directory_chain hd
  have hshort := h.short _ _ hd hc
  rw [findSlot_eq hc, hshort] at hs
  have hmem := live_subset _ _ s (mem_of_find hs)
  obtain ⟨hc', hkept⟩ := hk d ds hd hc
  obtain ⟨hfound, hentry⟩ := hkept x s hs (by rwa [← slotEntry_eq hc hmem])
  constructor
  · rw [findSlot_eq hc', hshort, hfound]
  · rw [slotEntry_eq hc' hmem, hentry, slotEntry_eq hc hmem]

/-- What is read along names when the first is found as it was. -/
theorem readAlong_step (hs : fs.findSlot dev' x d = fs.findSlot dev x d)
    (he : ∀ s, fs.findSlot dev x d = some s → fs.slotEntry dev' s = fs.slotEntry dev s)
    (hlast : names = [] → fs.readAlong dev' [x] d n = fs.readAlong dev [x] d n)
    (hrest : ∀ s, fs.findSlot dev x d = some s → (fs.slotEntry dev s).isDirectory = true →
      names ≠ [] → fs.readAlong dev' names (fs.directoryOf (fs.slotEntry dev s).firstCluster) n =
        fs.readAlong dev names (fs.directoryOf (fs.slotEntry dev s).firstCluster) n) :
    fs.readAlong dev' (x :: names) d n = fs.readAlong dev (x :: names) d n := by
  by_cases hnil : names = []
  · rw [hnil, hlast hnil]
  cases hfind : fs.findSlot dev x d with
  | none => rw [readAlong_none hfind, readAlong_none (hs.trans hfind)]
  | some s =>
    have hsame := he s hfind
    have hfind' := hs.trans hfind
    cases hdir : (fs.slotEntry dev s).isDirectory with
    | false =>
      rw [readAlong_blocked hfind hdir hnil, readAlong_blocked hfind' (hsame ▸ hdir) hnil]
    | true =>
      rw [readAlong_cons hfind hdir hnil, readAlong_cons hfind' (hsame ▸ hdir) hnil, hsame]
      exact hrest s hfind hdir hnil

/-- Along directories in which nothing changes all is read as it was. -/
theorem Within.readAlong (hw : Within fs (fs.view dev.store) [] (fs.view dev'.store))
    (h : Searchable fs (fs.view dev.store)) (hd : IsDirectory fs (fs.view dev.store) d)
    (hfile : ∀ s, fs.resolveAlong dev true names d = some s →
      (fs.slotEntry dev s).isDirectory = false) :
    fs.readAlong dev' names d n = fs.readAlong dev names d n := by
  induction names generalizing d with
  | nil => rfl
  | cons x names ih =>
    obtain ⟨ds, hc⟩ := h.sound.directory_chain hd
    have hshort := h.short _ _ hd hc
    obtain ⟨hfind, hentry⟩ := hw.lookup x hc hshort
    have hsame : fs.findSlot dev' x d = fs.findSlot dev x d := by
      rw [hfind, findSlot_eq hc, hshort]
    have he (s : Slot) (hs : fs.findSlot dev x d = some s) :
        fs.slotEntry dev' s = fs.slotEntry dev s := by
      have hmem := live_subset _ _ s (mem_of_find (hfind.symm.trans (hsame.trans hs)))
      rw [hentry s hmem, slotEntry_eq hc hmem]
    refine readAlong_step hsame he (fun hlast => ?_) fun s hs hdir hlast =>
      ih (isDirectory_of_slot h.sound hd hs hdir) fun t ht => hfile t ?_
    · subst hlast
      cases hs : fs.findSlot dev x d with
      | none => rw [readAlong_none hs, readAlong_none (hsame.trans hs)]
      | some s =>
        exact readAlong_found h.sound hd hd (hw.keepsFiles d) hs (hsame.trans hs) (he s hs)
          (hfile s (resolveAlong_last.trans hs))
    · rw [resolveAlong_cons hs hdir hlast, ht]

end Kept

/-! ## The way to the file -/

section Way

variable {fs : FAT32Driver} {dev : BlockDevice} {file : List Byte} {data : Buffer}
  {names : List (List Byte)} {d size : Nat}

/-- What the copy along the names comes to: where it has a place, the file is what is read, and
otherwise what was read before. -/
def ReadAfter (fs : FAT32Driver) (dev dev' : BlockDevice) (file : List Byte) (data : Buffer)
    (size : Nat) (names : List (List Byte)) (d : Nat) : Prop :=
  ∀ n, (HasPlace fs dev file size names d →
      fs.readAlong dev' (names ++ [file]) (fs.directoryOf d) n =
        if size > n then (0, []) else (size, slice data 0 size)) ∧
    (¬HasPlace fs dev file size names d → fs.readAlong dev' (names ++ [file]) (fs.directoryOf d) n =
      fs.readAlong dev (names ++ [file]) (fs.directoryOf d) n)

/-- The file is written in a directory of the volume. -/
theorem writeFile_reads_along (hgeo : Geometry fs) (h : Searchable fs (fs.view dev.store))
    (hfile : Legible file) (hsize : size ≠ 0) (h32 : size < 2 ^ 32)
    (hd : IsDirectory fs (fs.view dev.store) (fs.directoryOf d))
    (hold : ∀ s, fs.findSlot dev file (fs.directoryOf d) = some s →
      (fs.slotEntry dev s).isDirectory = false) :
    let dev' := fs.writeFile dev (to83Format file) data size d
    KeepsDirectories fs (fs.view dev.store) (fs.view dev'.store) ∧
      ReadAfter fs dev dev' file data size [] d := by
  intro dev'
  obtain ⟨ds, hc⟩ := h.sound.directory_chain hd
  have hshort := h.short _ _ hd hc
  have hwithin (hw : Within fs (fs.view dev.store) [] (fs.view dev'.store))
      (hno : ¬HasPlace fs dev file size [] d) :
      KeepsDirectories fs (fs.view dev.store) (fs.view dev'.store) ∧
        ReadAfter fs dev dev' file data size [] d :=
    ⟨hw.keepsDirectories, fun n => ⟨fun hplace => absurd hplace hno, fun _ =>
      hw.readAlong h hd fun s hs => hold s (resolveAlong_last.symm.trans hs)⟩⟩
  obtain ⟨hless, hw⟩ | ⟨hroom, b, hb, hdata, ⟨hfull, hw⟩ | ⟨i, hi, hw⟩⟩ := @writeFile_new fs dev
    (to83Format file) data size d ds hgeo hc (length_to83Format file) hsize
  · exact hwithin hw fun hplace => absurd hplace.1 (Nat.not_le.mpr hless)
  · exact hwithin hw fun ⟨_, i, hi, _⟩ => hfull ⟨i, hi.lt, hi.free⟩
  · have hlen := DirectoryEntry.length_create (length_to83Format file) b size 0x20#8
    have hlive : (DirectoryEntry.create (to83Format file) b size 0x20#8).isLive = true :=
      hfile.isLive (by decide)
    refine ⟨hi.keepsDirectories h.sound hd hc hlen hlive (fun name s hname hs => ?_) hw,
      fun n => ⟨fun hplace => ?_, fun hplace => ?_⟩⟩
    · have hfind : fs.findSlot dev name (fs.directoryOf d) =
          fs.findSlot dev file (fs.directoryOf d) :=
        findSlot_congr ((hfile.isNameEqual_iff name).mp hname)
      rw [findSlot_eq hc, hshort, hs] at hfind
      rw [← slotEntry_eq hc (live_subset _ _ s (mem_of_find hs))]
      exact hold s hfind.symm
    · obtain ⟨-, j, hj, hnone⟩ := hplace
      obtain rfl := hi.unique hj
      obtain ⟨hs, hentry⟩ := hfile.found (by decide) hi hc hshort hnone hw
      exact readAlong_new hgeo h32 hb hdata hs hentry
    · have hsome : (fs.view dev.store).find file (slotsBefore (fs.directoryOf d) i) ≠ none :=
        fun hnone => hplace ⟨hroom, i, hi, hnone⟩
      obtain ⟨hfind, hentry⟩ := hw.lookup file hc hshort
      rw [hi.find_before hc hlen hlive hsome, ← hshort, ← findSlot_eq hc] at hfind
      cases hs : fs.findSlot dev file (fs.directoryOf d) with
      | none => rw [List.nil_append, readAlong_none hs, readAlong_none (hfind.trans hs)]
      | some s =>
        have hlive := hs
        rw [findSlot_eq hc, hshort] at hlive
        have hmem := live_subset _ _ s (mem_of_find hlive)
        refine readAlong_found h.sound hd hd hw.keepsFiles_setSlot hs (hfind.trans hs) ?_
          (hold s hs)
        rw [hentry s hmem, slotEntry_eq hc hmem,
          (entry_setSlot _ _ hlen).2 s (hi.ne_of_live (mem_of_find hlive))]

/-- A directory is made for the first name that is missing, and what follows in it. -/
theorem createDirectory_reads_along {x : List Byte} {c : Nat} {dev₁ : BlockDevice}
    (hgeo : Geometry fs) (h : Searchable fs (fs.view dev.store)) (hfile : Legible file)
    (hx : Legible x) (hnames : ∀ y ∈ names, Legible y) (hsize : size ≠ 0) (h32 : size < 2 ^ 32)
    (hd : IsDirectory fs (fs.view dev.store) (fs.directoryOf d))
    (hnone : fs.findDirectoryEntry dev x d = none)
    (hnew : NewDirectory fs (fs.view dev.store) (fs.view dev₁.store) (fs.directoryOf d)
      (to83Format x) c) :
    let r := fs.writeAlong file data size names dev₁ c
    KeepsDirectories fs (fs.view dev.store) (fs.view r.2.store) ∧
      ReadAfter fs dev r.2 file data size (x :: names) d := by
  intro r
  obtain ⟨ds, hc⟩ := h.sound.directory_chain hd
  have hshort := h.short _ _ hd hc
  have hslot : fs.findSlot dev x (fs.directoryOf d) = none := by
    rw [findSlot_directoryOf]
    exact Option.map_eq_none_iff.mp hnone
  have hfind : (fs.view dev.store).find x (fs.slots ds) = none := by
    rw [← hshort, ← findSlot_eq hc, hslot]
  have hplace : HasPlace fs dev file size (x :: names) d ↔
      FreeSlot fs (fs.view dev.store) (fs.directoryOf d) ∧
        names.length + 1 + fs.clustersFor size ≤ (fs.view dev.store).freeClusters.length := by
    rw [HasPlace, hnone]
  have hroom := hnew.room
  obtain ⟨hw, hread⟩ := @writeAlong_fresh fs dev₁ file data names c size hgeo hfile hnames hsize h32
    hnew.empty hnew.ended hnew.slot
  rcases hnew.enters.trans_free hw fun y hy => by rw [List.mem_singleton.mp hy, hnew.was_free] with
    ⟨hfull, hw⟩ | ⟨i, hi, hw⟩
  · -- There is no slot for the directory, and nothing leads to it.
    refine ⟨hw.keepsDirectories, fun n => ⟨fun hp => absurd (hplace.mp hp).1 hfull, fun _ => ?_⟩⟩
    refine hw.readAlong h hd fun s hs => ?_
    rw [List.cons_append, resolveAlong, hslot] at hs
    cases hs
  · have hlen := DirectoryEntry.length_create (length_to83Format x) c 0 0x10#8
    obtain ⟨hs, hentry⟩ := hx.found (by decide) hi hc hshort (hi.find_none hc hfind) hw
    have hlt := (ClusterChain.lt hnew.empty.chain hnew.empty.chain.head_mem).2.2.2
    have hisdir : (fs.slotEntry r.2 ⟨fs.directoryOf d, i⟩).isDirectory = true := by
      rw [hentry, DirectoryEntry.isDirectory_create (length_to83Format x)]
    have hafter (n : Nat) : fs.readAlong r.2 (x :: names ++ [file]) (fs.directoryOf d) n =
        fs.readAlong r.2 (names ++ [file]) c n := by
      rw [List.cons_append, readAlong_cons hs hisdir (by simp), hentry,
        DirectoryEntry.firstCluster_create (length_to83Format x) hlt,
        directoryOf_of_chain hnew.empty.chain]
    refine ⟨hi.keepsDirectories h.sound hd hc hlen (hx.isLive (by decide))
      (fun name s hname hs => ?_) hw, fun n => ⟨fun hp => ?_, fun hp => ?_⟩⟩
    · have hother : fs.findSlot dev name (fs.directoryOf d) =
          fs.findSlot dev x (fs.directoryOf d) :=
        findSlot_congr ((hx.isNameEqual_iff name).mp hname)
      rw [hslot, findSlot_eq hc, hshort, hs] at hother
      cases hother
    · have hle := (hplace.mp hp).2
      rw [hafter, hread, if_pos ⟨rfl, by omega⟩]
    · have hless : ¬(names.length + fs.clustersFor size ≤
          (fs.view dev₁.store).freeClusters.length) :=
        fun hle => hp (hplace.mpr ⟨⟨i, hi.lt, hi.free⟩, by omega⟩)
      rw [hafter, hread, if_neg fun h => hless h.2, List.cons_append, readAlong_none hslot]

/-- The copy along the names, where it does not fail, keeps the directories, and reads as its place
has it. -/
theorem writeAlong_spec (hgeo : Geometry fs) (h : Searchable fs (fs.view dev.store))
    (hfile : Legible file) (hnames : ∀ y ∈ names, Legible y) (hsize : size ≠ 0)
    (h32 : size < 2 ^ 32)
    (hd : IsDirectory fs (fs.view dev.store) (fs.directoryOf d))
    (hold : ∀ s, fs.resolveAlong dev true (names ++ [file]) (fs.directoryOf d) = some s →
      (fs.slotEntry dev s).isDirectory = false) :
    let r := fs.writeAlong file data size names dev d
    r.1 = true → KeepsDirectories fs (fs.view dev.store) (fs.view r.2.store) ∧
      ReadAfter fs dev r.2 file data size names d := by
  induction names generalizing d with
  | nil =>
    intro r
    by_cases h0 : d = 0
    · have hr : r = (false, dev) := if_pos h0
      rw [hr]
      exact fun htrue => by cases htrue
    · have hr : r = (true, fs.writeFile dev (to83Format file) data size d) := writeAlong_nil h0
      rw [hr]
      exact fun _ => writeFile_reads_along hgeo h hfile hsize h32 hd
        fun s hs => hold s (resolveAlong_last.trans hs)
  | cons x names ih =>
    rw [List.forall_mem_cons] at hnames
    obtain ⟨ds, hc⟩ := h.sound.directory_chain hd
    rcases @writeAlong_cases fs dev x file data names d size ds hgeo hc with
      hr | ⟨c, dev₁, hnone, hnew, hr⟩ | ⟨s, hs, hdir, hr⟩
    · rw [hr]
      exact fun htrue => by cases htrue
    · rw [hr]
      exact fun _ => createDirectory_reads_along hgeo h hfile hnames.1 hnames.2 hsize h32 hd hnone
        hnew
    · have hlast : names ++ [file] ≠ [] := by simp
      have hrest := ih hnames.2 (isDirectory_of_slot h.sound hd hs hdir)
        fun t ht => hold t (by rw [List.cons_append, resolveAlong_cons hs hdir hlast, ht])
      rw [← hr] at hrest
      intro r htrue
      obtain ⟨hkeeps, hreads⟩ := hrest htrue
      refine ⟨hkeeps, fun n => ?_⟩
      obtain ⟨hs', he⟩ := hkeeps.found h hd hs hdir
      have hplace : HasPlace fs dev file size (x :: names) d ↔
          HasPlace fs dev file size names (fs.slotEntry dev s).firstCluster := by
        rw [HasPlace, findDirectoryEntry, ← findSlot_directoryOf, hs, Option.map_some]
      rw [List.cons_append, hplace, readAlong_cons hs hdir hlast,
        readAlong_cons hs' (he ▸ hdir) hlast, he]
      exact hreads n

end Way

end Sylphia
