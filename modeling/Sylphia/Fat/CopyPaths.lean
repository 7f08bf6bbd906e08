import Sylphia.Fat.CopyFile
import Sylphia.Fat.ReadDelete
import Sylphia.Fat.Tree

/-!
# The paths of copies

`CopyFileFrom` cuts the directory part of a path at 63 characters, and so the names along which it
makes directories need not be those that `ReadFile` looks up. What is read under other names than
those of the copy is as it was.
-/

namespace Sylphia

open Bytes WriteLog Chain FAT32Driver

/-- The names of a copy: those of the directories, and that of the file. -/
def copyNames (dstPath : List Byte) : List (List Byte) :=
  directoryNames dstPath ++ [fileNamePart dstPath]

/-- The names that `ReadFile` looks up, and whether the path ends with the last of them. -/
def lookupNames (path : List Byte) : List (List Byte) × Bool :=
  entryNames path.length (relative path)

/-- `ReadFile` looks up the names of the copy. -/
structure SameNames (dstPath : List Byte) : Prop where
  ends : (lookupNames dstPath).2 = true
  names : (lookupNames dstPath).1.map convertName = (copyNames dstPath).map convertName

instance (dstPath : List Byte) : Decidable (SameNames dstPath) :=
  decidable_of_iff (_ ∧ _) ⟨fun h => ⟨h.1, h.2⟩, fun h => ⟨h.ends, h.names⟩⟩

/-- One entry is new, in the first free slot of the directory of a path. -/
def AddsAt (fs : FAT32Driver) (V V' : View) (p : List (List Byte)) (e : DirectoryEntry) : Prop :=
  ∃ d i, DirectoryAt fs V p d ∧ FirstFree fs V d i ∧ e.length = 32 ∧ e.isLive = true ∧
    Within fs (V.setSlot ⟨d, i⟩ e) [] V'

/-- From the directory of a path on, at most one entry is new, for one of the names. -/
def AddsAlong (fs : FAT32Driver) (V V' : View) (p names : List (List Byte)) : Prop :=
  Within fs V [] V' ∨
    ∃ q e, AddsAt fs V V' (p ++ q) e ∧ q ++ [e.name] <+: names.map convertName

/-- Where `CopyFileFrom` reports success, the path is read as the source is. -/
def CopyFaithful (fs : FAT32Driver) (dev : BlockDevice) (srcFs : FAT32Driver)
    (srcDev : BlockDevice) (srcPath dstPath : List Byte) (memory : Option Buffer) : Prop :=
  (fs.copyFileFrom dev srcFs srcDev srcPath dstPath memory).1 = true → ∀ n,
    fs.readFile (fs.copyFileFrom dev srcFs srcDev srcPath dstPath memory).2 dstPath n 0 =
      srcFs.readFile srcDev srcPath n 0

/-- On a sound volume the names of the copy are written as they are looked up, and neither they nor
the path lead to a directory. Where the path has other names, no directory leads back to the
root. -/
structure Copyable (fs : FAT32Driver) (dev : BlockDevice) (dstPath : List Byte) : Prop where
  geometry : Geometry fs
  searchable : Searchable fs (fs.view dev.store)
  legible : ∀ name ∈ copyNames dstPath, Legible name
  path : ∀ e, fs.getFileEntry dev dstPath 0 = some e → e.isDirectory = false
  copy : ∀ s, fs.resolveAlong dev true (copyNames dstPath) fs.rootClus = some s →
    (fs.slotEntry dev s).isDirectory = false
  tree : ¬SameNames dstPath → TreeVolume fs (fs.view dev.store)

/-- The condition for a faithful copy. It fails, for want of a source, of memory or of a way to the
directory. Or the path has the names of the copy, there is a place for it, and `ReadFile` delivers
as many bytes of the source as it says. Or one of the first two is missing, and the path is read as
the source is before. -/
def CopyCondition (fs : FAT32Driver) (dev : BlockDevice) (srcFs : FAT32Driver)
    (srcDev : BlockDevice) (srcPath dstPath : List Byte) (memory : Option Buffer) : Prop :=
  let size := srcFs.getFileSize srcDev srcPath
  let names := directoryNames dstPath
  let place := SameNames dstPath ∧
    HasPlace fs dev (fileNamePart dstPath) size names fs.rootClus
  size = 0 ∨ memory = none ∨
    Geometry fs ∧ SoundVolume fs (fs.view dev.store) ∧ Blocked fs dev names fs.rootClus ∨
    Copyable fs dev dstPath ∧ (place ∧ (srcFs.readFile srcDev srcPath size 0).2.length = size ∨
      ¬place ∧ ∀ n, fs.readFile dev dstPath n 0 = srcFs.readFile srcDev srcPath n 0)

section Names

variable {x dir : List Byte}

theorem fileNamePart_slash (hx : 0x2F#8 ∉ x) : fileNamePart (dir ++ 0x2F#8 :: x) = x := by
  have hall : ∀ a ∈ x.reverse, decide (a ≠ 0x2F#8) = true := by
    intro a ha
    rw [decide_eq_true_iff]
    rintro rfl
    exact hx (List.mem_reverse.mp ha)
  rw [fileNamePart, List.reverse_append, List.reverse_cons, List.append_assoc,
    List.takeWhile_append_of_pos hall, List.singleton_append, List.takeWhile_cons_of_neg (by simp),
    List.append_nil, List.reverse_reverse]

theorem dirPart_slash (hx : 0x2F#8 ∉ x) (hdir : dir.length ≤ 63) :
    dirPart (dir ++ 0x2F#8 :: x) = dir := by
  have hlen : (dir ++ 0x2F#8 :: x).length - x.length - 1 = dir.length := by
    rw [List.length_append, List.length_cons]
    omega
  rw [dirPart, fileNamePart_slash hx, hlen, List.take_left, List.take_of_length_le hdir]

/-- A path has the names of its copy when its directory part has at most 63 characters, with single
slashes, and none of its names more than 15. -/
theorem sameNames_slash (hdir : SinglySlashed (relative dir)) (hcut : dir.length ≤ 63)
    (hne : x ≠ []) (hx : 0x2F#8 ∉ x) (hlen : x.length ≤ 15) :
    SameNames (dir ++ 0x2F#8 :: x) := by
  obtain ⟨hentry, hensure⟩ := hdir.names (length_relative_le dir)
  obtain ⟨k, hk⟩ := Nat.exists_eq_add_of_le' (List.length_pos_iff.mpr hne)
  have hwhole : entryNames x.length x = ([x], true) := by rw [hk, entryNames_whole hne hx hlen]
  have hnames : directoryNames (dir ++ 0x2F#8 :: x) = (relative dir).splitOn 0x2F#8 := by
    rw [directoryNames, dirPart_slash hx hcut, hensure]
  have hall : lookupNames (dir ++ 0x2F#8 :: x) = ((relative dir).splitOn 0x2F#8 ++ [x], true) := by
    rw [lookupNames, entryNames_relative (by rw [hentry]), hentry, hwhole]
  refine ⟨by rw [hall], ?_⟩
  rw [hall, copyNames, hnames, fileNamePart_slash hx]

end Names

section Elsewhere

variable {fs : FAT32Driver} {dev dev' : BlockDevice} {V V' : View} {x y file : List Byte}
  {data : Buffer} {p q names ys : List (List Byte)} {b c d i n size : Nat} {attr : Byte}
  {ds : List Nat} {s : Slot} {e : DirectoryEntry}

/-- What is found in the directory of a path has a longer path. -/
theorem DirectoryAt.found (hd : DirectoryAt fs (fs.view dev.store) p d)
    (hv : TreeVolume fs (fs.view dev.store)) (hs : fs.findSlot dev x d = some s)
    (hdir : (fs.slotEntry dev s).isDirectory = true) :
    DirectoryAt fs (fs.view dev.store) (p ++ [convertName x])
      (fs.directoryOf (fs.slotEntry dev s).firstCluster) := by
  obtain ⟨ds, hc⟩ := hv.sound.directory_chain hd.isDirectory
  rw [findSlot_eq hc] at hs
  obtain ⟨hlist, hlive⟩ := listed_of_find hd.isDirectory hc hs
  have hname := name_of_find hs
  have hdot := isDot_of_isNameEqual hname
  rw [isNameEqual, beq_iff_eq] at hname
  rw [slotEntry_eq hc (live_subset _ _ s hlive)] at hdir ⊢
  have h0 := hv.directories s hlist hdir
  rw [directoryOf, if_neg h0, ← hname]
  exact .sub hd hc hlive hdot hdir h0

/-- Under other names all is read as it was. -/
theorem AddsAt.readAlong (hadds : AddsAt fs (fs.view dev.store) (fs.view dev'.store) q e)
    (h : Searchable fs (fs.view dev.store)) (hv : TreeVolume fs (fs.view dev.store))
    (hd : DirectoryAt fs (fs.view dev.store) p d)
    (hnot : ¬q ++ [e.name] <+: p ++ names.map convertName)
    (hfile : ∀ s, fs.resolveAlong dev true names d = some s →
      (fs.slotEntry dev s).isDirectory = false) :
    fs.readAlong dev' names d n = fs.readAlong dev names d n := by
  obtain ⟨c, i, hat, hi, hlen, hlive, hw⟩ := hadds
  obtain ⟨cs, hcs⟩ := h.sound.directory_chain hat.isDirectory
  induction names generalizing d p with
  | nil => rfl
  | cons x names ih =>
    obtain ⟨ds, hc⟩ := h.sound.directory_chain hd.isDirectory
    have hshort := h.short _ _ hd.isDirectory hc
    have hc' : ClusterChain fs ((fs.view dev.store).setSlot ⟨c, i⟩ e) d ds := hc
    obtain ⟨hfind, hentry⟩ := hw.lookup x hc' hshort
    have hsame : ((fs.view dev.store).setSlot ⟨c, i⟩ e).find x (fs.slots ds) =
        (fs.view dev.store).find x (fs.slots ds) := by
      by_cases hdc : d = c
      · subst hdc
        obtain rfl := hd.path_unique h.sound hat
        refine hi.find_other hc hlen hlive (h.sound.ended d ds hd.isDirectory hc)
          (Bool.eq_false_iff.mpr fun hname => hnot ?_)
        rw [isNameEqual, beq_iff_eq] at hname
        rw [hname, List.map_cons, List.prefix_append_right_inj]
        exact List.prefix_append [convertName x] _
      · refine find_congr x fun s hs => (entry_setSlot _ _ hlen).2 s ?_
        rintro rfl
        exact hdc (h.sound.directory_unique hd.isDirectory hat.isDirectory hc hcs
          (mem_slots.mp hs).1 hcs.head_mem)
    have hfound : fs.findSlot dev' x d = fs.findSlot dev x d := by
      rw [hfind, hsame, findSlot_eq hc, hshort]
    have he (s : Slot) (hs : fs.findSlot dev x d = some s) :
        fs.slotEntry dev' s = fs.slotEntry dev s := by
      rw [findSlot_eq hc, hshort] at hs
      have hmem := live_subset _ _ s (mem_of_find hs)
      rw [hentry s hmem, (entry_setSlot _ _ hlen).2 s (hi.ne_of_live (mem_of_find hs)),
        slotEntry_eq hc hmem]
    refine readAlong_step hfound he (fun hlast => ?_) fun s hs hdir hlast =>
      ih (hd.found hv hs hdir) ?_ fun t ht => hfile t ?_
    · subst hlast
      cases hs : fs.findSlot dev x d with
      | none => rw [readAlong_none hs, readAlong_none (hfound.trans hs)]
      | some s =>
        exact readAlong_found h.sound hd.isDirectory hat.isDirectory hw.keepsFiles_setSlot hs
          (hfound.trans hs) (he s hs) (hfile s (resolveAlong_last.trans hs))
    · rwa [List.append_assoc, List.singleton_append, ← List.map_cons]
    · rw [resolveAlong_cons hs hdir hlast, ht]

/-- Names whose first is another one are read as they were. -/
theorem AddsAlong.readAlong
    (hadds : AddsAlong fs (fs.view dev.store) (fs.view dev'.store) p (x :: names))
    (h : Searchable fs (fs.view dev.store)) (hv : TreeVolume fs (fs.view dev.store))
    (hd : DirectoryAt fs (fs.view dev.store) p d) (hy : convertName y ≠ convertName x)
    (hfile : ∀ s, fs.resolveAlong dev true (y :: ys) d = some s →
      (fs.slotEntry dev s).isDirectory = false) :
    fs.readAlong dev' (y :: ys) d n = fs.readAlong dev (y :: ys) d n := by
  rcases hadds with hw | ⟨q, e, hadds, hpre⟩
  · exact hw.readAlong h hd.isDirectory hfile
  · refine hadds.readAlong h hv hd (fun hpre' => hy ?_) hfile
    rw [List.append_assoc, List.prefix_append_right_inj] at hpre'
    cases q with
    | nil =>
      rw [List.nil_append, List.map_cons, List.cons_prefix_cons] at hpre hpre'
      exact hpre'.1.symm.trans hpre.1
    | cons z q =>
      rw [List.cons_append, List.map_cons, List.cons_prefix_cons] at hpre hpre'
      exact hpre'.1.symm.trans hpre.1

theorem AddsAlong.refl (fs : FAT32Driver) (V : View) (p names : List (List Byte)) :
    AddsAlong fs V V p names :=
  Or.inl (.of_same fun _ _ => ⟨rfl, rfl⟩)

theorem AddsAlong.of_enters (hx : Legible x) (hattr : attr ≠ 0x0F#8) (hd : DirectoryAt fs V p d)
    (h : Enters fs V V' d (.create (to83Format x) b size attr)) :
    AddsAlong fs V V' p (x :: names) := by
  rcases h with ⟨-, hw⟩ | ⟨i, hi, hw⟩
  · exact Or.inl hw
  · refine Or.inr ⟨[], _, ⟨d, i, by rwa [List.append_nil], hi,
      DirectoryEntry.length_create (length_to83Format x) b size attr, hx.isLive hattr, hw⟩, ?_⟩
    rw [DirectoryEntry.name_create (length_to83Format x), ← hx.convert, List.nil_append,
      List.map_cons]
    exact List.prefix_append [convertName x] _

/-- The copy along the names adds one entry at most. -/
theorem writeAlong_adds (hgeo : Geometry fs) (hv : TreeVolume fs (fs.view dev.store))
    (hfile : Legible file) (hnames : ∀ y ∈ names, Legible y) (hsize : size ≠ 0)
    (h32 : size < 2 ^ 32) (hd : DirectoryAt fs (fs.view dev.store) p (fs.directoryOf d)) :
    AddsAlong fs (fs.view dev.store)
      (fs.view (fs.writeAlong file data size names dev d).2.store) p (names ++ [file]) := by
  obtain ⟨ds, hc⟩ := hv.sound.directory_chain hd.isDirectory
  induction names generalizing d ds p with
  | nil =>
    by_cases h0 : d = 0
    · rw [show fs.writeAlong file data size [] dev d = (false, dev) from if_pos h0]
      exact .refl fs _ p _
    · rw [writeAlong_nil h0]
      obtain ⟨-, hw⟩ | ⟨-, b, -, -, henters⟩ := @writeFile_new fs dev (to83Format file) data size d
        ds hgeo hc (length_to83Format file) hsize
      · exact Or.inl hw
      · exact .of_enters hfile (by decide) hd henters
  | cons x names ih =>
    rw [List.forall_mem_cons] at hnames
    rcases @writeAlong_cases fs dev x file data names d size ds hgeo hc with
      hr | ⟨c, dev₁, -, hnew, hr⟩ | ⟨s, hs, hdir, hr⟩
    · rw [hr]
      exact .refl fs _ p _
    · rw [hr]
      obtain ⟨hw, -⟩ := @writeAlong_fresh fs dev₁ file data names c size hgeo hfile hnames.2 hsize
        h32 hnew.empty hnew.ended hnew.slot
      exact .of_enters hnames.1 (by decide) hd <| hnew.enters.trans_free hw fun y hy => by
        rw [List.mem_singleton.mp hy, hnew.was_free]
    · rw [hr]
      have hsub := hd.found hv hs hdir
      obtain ⟨cs, hcs⟩ := hv.sound.directory_chain hsub.isDirectory
      rcases ih hnames.2 hsub cs hcs with hw | ⟨q, e, hadds, hpre⟩
      · exact Or.inl hw
      · refine Or.inr ⟨convertName x :: q, e, ?_, ?_⟩
        · rwa [List.append_assoc, List.singleton_append] at hadds
        · rw [List.cons_append, List.cons_append, List.map_cons, List.cons_prefix_cons]
          exact ⟨rfl, hpre⟩

/-- Where no directory has the name, none has it when there is a file of the name. -/
theorem FirstFree.no_directory (hi : FirstFree fs V d i) (hfile : Legible file)
    (hc : ClusterChain fs V d ds) (hshort : ds.take 10001 = ds)
    (hold : ∀ s, V.find file (fs.slots ds) = some s → (V.entry s).isDirectory = false)
    (hw : Within fs (V.setSlot ⟨d, i⟩ (.create (to83Format file) b size 0x20#8)) []
      (fs.view dev'.store)) (hs : fs.findSlot dev' file d = some s) :
    (fs.slotEntry dev' s).isDirectory = false := by
  have hlen := DirectoryEntry.length_create (length_to83Format file) b size 0x20#8
  by_cases hnone : V.find file (slotsBefore d i) = none
  · obtain ⟨hfound, hentry⟩ := hfile.found (by decide) hi hc hshort hnone hw
    obtain rfl := Option.some.inj (hfound.symm.trans hs)
    rw [hentry, isDirectory_file]
  · obtain ⟨hfind, hentry⟩ := hw.lookup file hc hshort
    rw [hs, hi.find_before hc hlen (hfile.isLive (by decide)) hnone] at hfind
    have hlive := mem_of_find hfind.symm
    rw [hentry s (live_subset _ _ s hlive), (entry_setSlot _ _ hlen).2 s (hi.ne_of_live hlive)]
    exact hold s hfind.symm

/-- The new file is in the way of longer names, which no directory was. -/
theorem writeFile_elsewhere (hgeo : Geometry fs) (h : Searchable fs (fs.view dev.store))
    (hfile : Legible file) (hsize : size ≠ 0)
    (hd : IsDirectory fs (fs.view dev.store) (fs.directoryOf d))
    (hold : ∀ s, fs.findSlot dev file (fs.directoryOf d) = some s →
      (fs.slotEntry dev s).isDirectory = false)
    (hys : ∀ s, fs.resolveAlong dev true (y :: ys) (fs.directoryOf d) = some s →
      (fs.slotEntry dev s).isDirectory = false)
    (hy : convertName y = convertName file) (hlong : ys ≠ []) :
    fs.readAlong (fs.writeFile dev (to83Format file) data size d) (y :: ys) (fs.directoryOf d) n =
      fs.readAlong dev (y :: ys) (fs.directoryOf d) n := by
  obtain ⟨ds, hc⟩ := h.sound.directory_chain hd
  have hshort := h.short _ _ hd hc
  rcases @writeFile_new fs dev (to83Format file) data size d ds hgeo hc (length_to83Format file)
    hsize with ⟨-, hw⟩ | ⟨-, b, -, -, ⟨-, hw⟩ | ⟨i, hi, hw⟩⟩
  · exact hw.readAlong h hd hys
  · exact hw.readAlong h hd hys
  · have hfind (s : Slot) (hs : (fs.view dev.store).find file (fs.slots ds) = some s) :
        ((fs.view dev.store).entry s).isDirectory = false := by
      rw [← slotEntry_eq hc (live_subset _ _ s (mem_of_find hs))]
      exact hold s (by rw [findSlot_eq hc, hshort, hs])
    have hbefore : fs.readAlong dev (y :: ys) (fs.directoryOf d) n = (0, []) :=
      readAlong_no_directory (fun s hs => hold s ((findSlot_congr hy).symm.trans hs)) hlong
    rw [hbefore]
    exact readAlong_no_directory (fun s hs => hi.no_directory hfile hc hshort hfind hw
      ((findSlot_congr hy).symm.trans hs)) hlong

/-- In a new directory there is nothing but what is made in it. -/
theorem createDirectory_elsewhere {c : Nat} {dev₁ : BlockDevice} (hgeo : Geometry fs)
    (h : Searchable fs (fs.view dev.store)) (hfile : Legible file) (hx : Legible x)
    (hnames : ∀ y ∈ names, Legible y) (hsize : size ≠ 0) (h32 : size < 2 ^ 32)
    (hd : IsDirectory fs (fs.view dev.store) (fs.directoryOf d))
    (hnone : fs.findSlot dev x (fs.directoryOf d) = none)
    (hnew : NewDirectory fs (fs.view dev.store) (fs.view dev₁.store) (fs.directoryOf d)
      (to83Format x) c)
    (hy : convertName y = convertName x)
    (hne : ys.map convertName ≠ (names ++ [file]).map convertName) :
    fs.readAlong (fs.writeAlong file data size names dev₁ c).2 (y :: ys) (fs.directoryOf d) n =
      fs.readAlong dev (y :: ys) (fs.directoryOf d) n := by
  obtain ⟨ds, hc⟩ := h.sound.directory_chain hd
  have hshort := h.short _ _ hd hc
  have hbefore := (findSlot_congr hy).trans hnone
  obtain ⟨hw, hread⟩ := @writeAlong_fresh fs dev₁ file data names c size hgeo hfile hnames hsize h32
    hnew.empty hnew.ended hnew.slot
  rcases hnew.enters.trans_free hw fun y hy => by rw [List.mem_singleton.mp hy, hnew.was_free] with
    ⟨-, hw⟩ | ⟨i, hi, hw⟩
  · refine hw.readAlong h hd fun s hs => ?_
    rw [resolveAlong, hbefore] at hs
    cases hs
  · have hfind : (fs.view dev.store).find x (fs.slots ds) = none := by
      rw [← hshort, ← findSlot_eq hc, hnone]
    obtain ⟨hs, hentry⟩ := hx.found (by decide) hi hc hshort (hi.find_none hc hfind) hw
    have hs' := (findSlot_congr hy).trans hs
    rw [readAlong_none hbefore]
    by_cases hlast : ys = []
    · subst hlast
      exact readAlong_made hs' hentry
    · have hlt := (ClusterChain.lt hnew.empty.chain hnew.empty.chain.head_mem).2.2.2
      rw [readAlong_cons hs' (by rw [hentry, DirectoryEntry.isDirectory_create
        (length_to83Format x)]) hlast, hentry,
        DirectoryEntry.firstCluster_create (length_to83Format x) hlt,
        directoryOf_of_chain hnew.empty.chain, hread, if_neg fun h => hne h.1]

/-- Behind a directory that is kept, what is read further on decides. -/
theorem KeepsDirectories.readAlong
    (hk : KeepsDirectories fs (fs.view dev.store) (fs.view dev'.store))
    (h : Searchable fs (fs.view dev.store)) (hd : IsDirectory fs (fs.view dev.store) d)
    (hs : fs.findSlot dev y d = some s) (hdir : (fs.slotEntry dev s).isDirectory = true)
    (hlong : ys ≠ [])
    (hrest : fs.readAlong dev' ys (fs.directoryOf (fs.slotEntry dev s).firstCluster) n =
      fs.readAlong dev ys (fs.directoryOf (fs.slotEntry dev s).firstCluster) n) :
    fs.readAlong dev' (y :: ys) d n = fs.readAlong dev (y :: ys) d n := by
  obtain ⟨hs', he⟩ := hk.found h hd hs hdir
  rw [readAlong_cons hs hdir hlong, readAlong_cons hs' (he ▸ hdir) hlong, he, hrest]

/-- What is read under other names than those of the copy is as it was. -/
theorem writeAlong_elsewhere (hgeo : Geometry fs) (h : Searchable fs (fs.view dev.store))
    (hv : TreeVolume fs (fs.view dev.store)) (hfile : Legible file)
    (hnames : ∀ y ∈ names, Legible y) (hsize : size ≠ 0) (h32 : size < 2 ^ 32)
    (hd : DirectoryAt fs (fs.view dev.store) p (fs.directoryOf d))
    (hold : ∀ s, fs.resolveAlong dev true (names ++ [file]) (fs.directoryOf d) = some s →
      (fs.slotEntry dev s).isDirectory = false)
    (hys : ∀ s, fs.resolveAlong dev true ys (fs.directoryOf d) = some s →
      (fs.slotEntry dev s).isDirectory = false)
    (hne : ys.map convertName ≠ (names ++ [file]).map convertName) :
    let r := fs.writeAlong file data size names dev d
    r.1 = true →
      fs.readAlong r.2 ys (fs.directoryOf d) n = fs.readAlong dev ys (fs.directoryOf d) n := by
  induction names generalizing d p ys with
  | nil =>
    intro r htrue
    have hadds : AddsAlong fs (fs.view dev.store) (fs.view r.2.store) p [file] :=
      @writeAlong_adds fs dev file data p [] d size hgeo hv hfile hnames hsize h32 hd
    cases ys with
    | nil => rfl
    | cons y ys =>
      by_cases hy : convertName y = convertName file
      · have h0 : d ≠ 0 := by
          rintro rfl
          cases htrue
        have hr : r = (true, fs.writeFile dev (to83Format file) data size d) := writeAlong_nil h0
        rw [hr]
        refine writeFile_elsewhere hgeo h hfile hsize hd.isDirectory
          (fun s hs => hold s (resolveAlong_last.trans hs)) hys hy fun hlast => hne ?_
        rw [hlast, List.nil_append, List.map_singleton, List.map_singleton, hy]
      · exact hadds.readAlong h hv hd hy hys
  | cons x names ih =>
    intro r htrue
    have hadds : AddsAlong fs (fs.view dev.store) (fs.view r.2.store) p (x :: (names ++ [file])) :=
      @writeAlong_adds fs dev file data p (x :: names) d size hgeo hv hfile hnames hsize h32 hd
    have hkeeps : KeepsDirectories fs (fs.view dev.store) (fs.view r.2.store) :=
      (@writeAlong_spec fs dev file data (x :: names) d size hgeo h hfile hnames hsize h32
        hd.isDirectory hold htrue).1
    cases ys with
    | nil => rfl
    | cons y ys =>
      by_cases hy : convertName y = convertName x
      · rw [List.forall_mem_cons] at hnames
        obtain ⟨ds, hc⟩ := hv.sound.directory_chain hd.isDirectory
        have hne' : ys.map convertName ≠ (names ++ [file]).map convertName := fun heq => hne (by
          rw [List.cons_append, List.map_cons, List.map_cons, hy, heq])
        rcases @writeAlong_cases fs dev x file data names d size ds hgeo hc with
          hr | ⟨c, dev₁, hnone, hnew, hr⟩ | ⟨s, hs, hdir, hr⟩
        · rw [show r = (false, dev) from hr] at htrue
          cases htrue
        · rw [show r = fs.writeAlong file data size names dev₁ c from hr]
          refine createDirectory_elsewhere hgeo h hfile hnames.1 hnames.2 hsize h32 hd.isDirectory
            ?_ hnew hy hne'
          rw [findSlot_directoryOf]
          exact Option.map_eq_none_iff.mp hnone
        · have hs₁ := (findSlot_congr hy).trans hs
          have hlong : ys ≠ [] := by
            rintro rfl
            rw [hys s (resolveAlong_last.trans hs₁)] at hdir
            cases hdir
          have hrest := @ih _ ys _ hnames.2 (hd.found hv hs hdir)
            (fun t ht => hold t (by rw [List.cons_append, resolveAlong_cons hs hdir (by simp), ht]))
            (fun t ht => hys t (by rw [resolveAlong_cons hs₁ hdir hlong, ht])) hne'
          rw [← hr] at hrest
          exact hkeeps.readAlong h hd.isDirectory hs₁ hdir hlong (hrest htrue)
      · exact hadds.readAlong h hv hd hy hys

end Elsewhere

section Copy

variable {fs srcFs : FAT32Driver} {dev srcDev : BlockDevice} {path srcPath dstPath : List Byte}
  {memory : Option Buffer} {buf data : Buffer} {name : List Byte} {n size : Nat}

/-- `ReadFile` for a buffer of any size. -/
theorem readFile_eq : fs.readFile dev path n 0 =
    if fs.getFileSize dev path > n then (0, [])
    else (fs.getFileSize dev path, (fs.readFile dev path (fs.getFileSize dev path) 0).2) := by
  rw [readFile, readFile, getFileSize]
  cases fs.getFileEntry dev path 0 with
  | none => rfl
  | some entry =>
    dsimp only
    rw [if_neg (lt_irrefl entry.fileSize)]

theorem getFileSize_lt (fs : FAT32Driver) (dev : BlockDevice) (path : List Byte) :
    fs.getFileSize dev path < 2 ^ 32 := by
  rw [getFileSize]
  cases fs.getFileEntry dev path 0 with
  | none => decide
  | some entry =>
    have hlen := List.length_take_le 4 (entry.drop 28)
    exact (ofLE_lt _).trans_le (Nat.pow_le_pow_right (show 0 < 256 by decide) hlen)

/-- The root directory is the parent 0. -/
theorem writeFile_root : fs.writeFile dev name data size 0 =
    fs.writeFile dev name data size fs.rootClus := by
  have hroot : fs.directoryOf 0 = fs.directoryOf fs.rootClus := by
    rw [directoryOf, directoryOf, if_pos rfl]
    split_ifs <;> rfl
  rw [writeFile, writeFile, writeWithin, writeWithin]
  simp only [addDirectoryEntry, hroot]

/-- `CopyFileFrom` for a source that is not empty. -/
theorem copyFileFrom_along (h0 : fs.rootClus ≠ 0) (hsize : srcFs.getFileSize srcDev srcPath ≠ 0) :
    fs.copyFileFrom dev srcFs srcDev srcPath dstPath (some buf) =
      fs.writeAlong (fileNamePart dstPath)
        (splice buf 0 (srcFs.readFile srcDev srcPath (srcFs.getFileSize srcDev srcPath) 0).2)
        (srcFs.getFileSize srcDev srcPath) (directoryNames dstPath) dev fs.rootClus := by
  have hcount : (srcFs.readFile srcDev srcPath (srcFs.getFileSize srcDev srcPath) 0).1 =
      srcFs.getFileSize srcDev srcPath := by
    rw [readFile_eq, if_neg (lt_irrefl _)]
  rw [copyFileFrom]
  dsimp only
  rw [if_neg hsize, hcount, if_neg (not_not.mpr rfl), writeAlong, directoryNames]
  by_cases hdir : dirPart dstPath = []
  · rw [if_pos hdir, hdir, if_neg fun h => h.1 rfl, writeFile_root]
    exact (if_neg h0).symm
  · have hensure : fs.ensureDirectory dev (dirPart dstPath) = fs.ensureAlong
        (segments (dirPart dstPath).length (relative (dirPart dstPath))) dev fs.rootClus :=
      ensureLoop_along
    rw [if_neg hdir, hensure]
    dsimp only
    by_cases hfail : (fs.ensureAlong (segments (dirPart dstPath).length
        (relative (dirPart dstPath))) dev fs.rootClus).1 = 0
    · rw [if_pos ⟨hdir, hfail⟩, if_pos hfail]
    · rw [if_neg fun h => hfail h.2, if_neg hfail]

theorem copyFileFrom_empty (hsize : srcFs.getFileSize srcDev srcPath = 0) :
    fs.copyFileFrom dev srcFs srcDev srcPath dstPath memory = (false, dev) := if_pos hsize

theorem copyFileFrom_no_memory (hsize : srcFs.getFileSize srcDev srcPath ≠ 0) :
    fs.copyFileFrom dev srcFs srcDev srcPath dstPath none = (false, dev) := if_neg hsize

theorem SoundVolume.root_ne_zero (hv : SoundVolume fs (fs.view dev.store)) : fs.rootClus ≠ 0 := by
  obtain ⟨rs, hroot⟩ := hv.directory_chain .root
  exact fun h0 => absurd (h0 ▸ hroot.valid_head.1) (by decide)

/-- For a source that is not empty, and with memory, the copy fails when its way is blocked. -/
theorem copyFileFrom_fst_iff (hgeo : Geometry fs) (hv : SoundVolume fs (fs.view dev.store))
    (hsize : srcFs.getFileSize srcDev srcPath ≠ 0) :
    (fs.copyFileFrom dev srcFs srcDev srcPath dstPath (some buf)).1 = true ↔
      ¬Blocked fs dev (directoryNames dstPath) fs.rootClus := by
  rw [copyFileFrom_along hv.root_ne_zero hsize, writeAlong_fst, ne_eq, ensureAlong_blocked hgeo hv]
  rw [directoryOf_root hv]
  exact .root

theorem resolve_names : fs.resolve dev path 0 =
    fs.resolveAlong dev (lookupNames path).2 (lookupNames path).1 fs.rootClus := by
  rw [resolve_along, directoryOf, if_pos rfl, ite_self, lookupNames]

theorem readFile_names (hends : (lookupNames path).2 = true) :
    fs.readFile dev path n 0 = fs.readAlong dev (lookupNames path).1 fs.rootClus n := by
  rw [readFile, getFileEntry, resolve_names, hends]
  rfl

theorem readFile_open (hends : (lookupNames path).2 = false) :
    fs.readFile dev path n 0 = (0, []) := by
  rw [readFile, getFileEntry, resolve_names, hends, resolveAlong_open]
  rfl

/-- What is read of the copy is the source exactly when all of that was read. -/
theorem slice_copied (buf : Buffer) {bytes : List Byte} :
    slice (splice buf 0 bytes) 0 size = bytes ↔ bytes.length = size := by
  constructor
  · intro heq
    rw [← heq, length_slice]
  · rintro rfl
    exact slice_splice_self buf 0 bytes

/-- Where nothing has the path or the names of the copy, no directory has. -/
theorem Copyable.of_nothing (hgeo : Geometry fs) (h : Searchable fs (fs.view dev.store))
    (hlegible : ∀ name ∈ copyNames dstPath, Legible name)
    (hpath : fs.getFileEntry dev dstPath 0 = none)
    (hcopy : fs.resolveAlong dev true (copyNames dstPath) fs.rootClus = none)
    (htree : ¬SameNames dstPath → TreeVolume fs (fs.view dev.store)) : Copyable fs dev dstPath where
  geometry := hgeo
  searchable := h
  legible := hlegible
  path e he := by
    rw [hpath] at he
    cases he
  copy s hs := by
    rw [hcopy] at hs
    cases hs
  tree := htree

/-- What is read of a path that has the names of the copy. -/
theorem Copyable.reads_same (h : Copyable fs dev dstPath) (hsame : SameNames dstPath)
    (hsize : size ≠ 0) (h32 : size < 2 ^ 32) :
    let r := fs.writeAlong (fileNamePart dstPath) data size (directoryNames dstPath) dev fs.rootClus
    r.1 = true → ∀ n,
      (HasPlace fs dev (fileNamePart dstPath) size (directoryNames dstPath) fs.rootClus →
        fs.readFile r.2 dstPath n 0 = if size > n then (0, []) else (size, slice data 0 size)) ∧
      (¬HasPlace fs dev (fileNamePart dstPath) size (directoryNames dstPath) fs.rootClus →
        fs.readFile r.2 dstPath n 0 = fs.readFile dev dstPath n 0) := by
  intro r htrue n
  have hdir := directoryOf_root h.searchable.sound
  obtain ⟨-, hreads⟩ := @writeAlong_spec fs dev (fileNamePart dstPath) data (directoryNames dstPath)
    fs.rootClus size h.geometry h.searchable (h.legible _ (by simp [copyNames]))
    (fun y hy => h.legible y (List.mem_append_left _ hy)) hsize h32 (by rw [hdir]; exact .root)
    (by rw [hdir]; exact h.copy) htrue
  have hread := hreads n
  rw [hdir] at hread
  have hnames (dev' : BlockDevice) : fs.readFile dev' dstPath n 0 =
      fs.readAlong dev' (directoryNames dstPath ++ [fileNamePart dstPath]) fs.rootClus n := by
    rw [readFile_names hsame.ends, readAlong_congr hsame.names, copyNames]
  rw [hnames, hnames]
  exact hread

/-- What is read of a path that has other names. -/
theorem Copyable.reads_elsewhere (h : Copyable fs dev dstPath) (hother : ¬SameNames dstPath)
    (hsize : size ≠ 0) (h32 : size < 2 ^ 32) :
    let r := fs.writeAlong (fileNamePart dstPath) data size (directoryNames dstPath) dev fs.rootClus
    r.1 = true → ∀ n, fs.readFile r.2 dstPath n 0 = fs.readFile dev dstPath n 0 := by
  intro r htrue n
  have hdir := directoryOf_root h.searchable.sound
  cases hends : (lookupNames dstPath).2 with
  | false => rw [readFile_open hends, readFile_open hends]
  | true =>
    have hpath (s : Slot) (hs : fs.resolveAlong dev true (lookupNames dstPath).1 fs.rootClus =
        some s) : (fs.slotEntry dev s).isDirectory = false :=
      h.path _ (by rw [getFileEntry, resolve_names, hends, hs, Option.map_some])
    have hread := @writeAlong_elsewhere fs dev (fileNamePart dstPath) data []
      (directoryNames dstPath) (lookupNames dstPath).1 fs.rootClus n size h.geometry h.searchable
      (h.tree hother) (h.legible _ (by simp [copyNames]))
      (fun y hy => h.legible y (List.mem_append_left _ hy)) hsize h32 (by rw [hdir]; exact .root)
      (by rw [hdir]; exact h.copy) (by rw [hdir]; exact hpath)
      (fun hnames => hother ⟨hends, hnames⟩) htrue
    rw [hdir] at hread
    rw [readFile_names hends, readFile_names hends, hread]

/-- A copy that does not fail is faithful when it has a place at the path and all of the source was
read, or when it has none and the path was read as the source before. -/
theorem Copyable.faithful_iff (h : Copyable fs dev dstPath)
    (hsize : srcFs.getFileSize srcDev srcPath ≠ 0)
    (hopen : ¬Blocked fs dev (directoryNames dstPath) fs.rootClus) :
    let size := srcFs.getFileSize srcDev srcPath
    let place := SameNames dstPath ∧
      HasPlace fs dev (fileNamePart dstPath) size (directoryNames dstPath) fs.rootClus
    CopyFaithful fs dev srcFs srcDev srcPath dstPath (some buf) ↔
      place ∧ (srcFs.readFile srcDev srcPath size 0).2.length = size ∨
        ¬place ∧ ∀ n, fs.readFile dev dstPath n 0 = srcFs.readFile srcDev srcPath n 0 := by
  intro size place
  have hv := h.searchable.sound
  have h32 : size < 2 ^ 32 := getFileSize_lt srcFs srcDev srcPath
  have htrue : (fs.copyFileFrom dev srcFs srcDev srcPath dstPath (some buf)).1 = true :=
    (copyFileFrom_fst_iff h.geometry hv hsize).mpr hopen
  rw [CopyFaithful, imp_iff_right htrue]
  rw [copyFileFrom_along hv.root_ne_zero hsize] at htrue ⊢
  by_cases hplace : place
  · have hreads := h.reads_same hplace.1 hsize h32 htrue
    rw [and_iff_right hplace, or_iff_left fun hno => hno.1 hplace, ← slice_copied buf]
    constructor
    · intro hall
      have hone := hall size
      rw [(hreads size).1 hplace.2, if_neg (lt_irrefl _), readFile_eq, if_neg (lt_irrefl _)] at hone
      exact (Prod.mk.inj hone).2
    · intro heq n
      rw [(hreads n).1 hplace.2, readFile_eq (n := n), heq]
  · have hsame (n : Nat) := show _ = fs.readFile dev dstPath n 0 from
      if hnames : SameNames dstPath then
        (h.reads_same hnames hsize h32 htrue n).2 fun hp => hplace ⟨hnames, hp⟩
      else h.reads_elsewhere hnames hsize h32 htrue n
    rw [and_iff_right hplace, or_iff_right fun hyes => hplace hyes.1]
    exact forall_congr' fun n => by rw [hsame n]

/-- `CopyFileFrom` is faithful under the condition. Where the names of the copy are legible and
none of the two ways leads to a directory, it is so only then. -/
theorem copy_faithful_when (fs : FAT32Driver) (dev : BlockDevice) (srcFs : FAT32Driver)
    (srcDev : BlockDevice) (srcPath dstPath : List Byte) (memory : Option Buffer) :
    (CopyCondition fs dev srcFs srcDev srcPath dstPath memory →
        CopyFaithful fs dev srcFs srcDev srcPath dstPath memory) ∧
      (Copyable fs dev dstPath → CopyFaithful fs dev srcFs srcDev srcPath dstPath memory →
        CopyCondition fs dev srcFs srcDev srcPath dstPath memory) := by
  by_cases hsize : srcFs.getFileSize srcDev srcPath = 0
  · refine ⟨fun _ htrue => ?_, fun _ _ => Or.inl hsize⟩
    rw [copyFileFrom_empty hsize] at htrue
    cases htrue
  cases memory with
  | none =>
    refine ⟨fun _ htrue => ?_, fun _ _ => Or.inr (Or.inl rfl)⟩
    rw [copyFileFrom_no_memory hsize] at htrue
    cases htrue
  | some buf =>
    by_cases hblocked : Blocked fs dev (directoryNames dstPath) fs.rootClus
    · refine ⟨?_, fun h _ => Or.inr (Or.inr (Or.inl ⟨h.geometry, h.searchable.sound, hblocked⟩))⟩
      rintro (h0 | hnone | ⟨hgeo, hv, -⟩ | ⟨h, -⟩) htrue
      · exact absurd h0 hsize
      · cases hnone
      · exact absurd hblocked ((copyFileFrom_fst_iff hgeo hv hsize).mp htrue)
      · exact absurd hblocked
          ((copyFileFrom_fst_iff h.geometry h.searchable.sound hsize).mp htrue)
    · refine ⟨?_, fun h hfaithful => Or.inr (Or.inr (Or.inr
        ⟨h, (h.faithful_iff hsize hblocked).mp hfaithful⟩))⟩
      rintro (h0 | hnone | ⟨-, -, hyes⟩ | ⟨h, hreads⟩)
      · exact absurd h0 hsize
      · cases hnone
      · exact absurd hyes hblocked
      · exact (h.faithful_iff hsize hblocked).mpr hreads

end Copy

/-- The path `abcdefgh.ijk/…/abcdefgh.ijk/f`, whose directory part has 64 characters. -/
def longPath : List Byte :=
  (List.replicate 5 [0x61#8, 0x62#8, 0x63#8, 0x64#8, 0x65#8, 0x66#8, 0x67#8, 0x68#8, 0x2E#8, 0x69#8,
    0x6A#8, 0x6B#8, 0x2F#8]).flatten ++ [0x66#8]

/-- A file of three bytes is copied to `b/c`, for which a directory is made. A copy of it to the
long path is not faithful. -/
theorem copy_faithful_small :
    (smallVolume.copyFileFrom ⟨blankDisk, []⟩ smallVolume oneFileDisk [0x61#8]
      [0x62#8, 0x2F#8, 0x63#8] (some fun _ => 0)).1 = true ∧
    CopyFaithful smallVolume ⟨blankDisk, []⟩ smallVolume oneFileDisk [0x61#8]
      [0x62#8, 0x2F#8, 0x63#8] (some fun _ => 0) ∧
    ¬CopyFaithful smallVolume ⟨oneFileDisk.store, []⟩ smallVolume oneFileDisk [0x61#8] longPath
      (some fun _ => 0) := by
  have hsize : smallVolume.getFileSize oneFileDisk [0x61#8] = 3 := by
    decide +kernel
  have hsame : SameNames [0x62#8, 0x2F#8, 0x63#8] :=
    @sameNames_slash [0x63#8] [0x62#8] (by unfold SinglySlashed; decide) (by decide) (by decide)
      (by decide) (by decide)
  have heval : (smallVolume.readFile oneFileDisk [0x61#8] 3 0).2.length = 3 ∧
      directoryNames [0x62#8, 0x2F#8, 0x63#8] = [[0x62#8]] ∧
      smallVolume.getFileEntry ⟨blankDisk, []⟩ [0x62#8, 0x2F#8, 0x63#8] 0 = none ∧
      smallVolume.resolveAlong ⟨blankDisk, []⟩ true (copyNames [0x62#8, 0x2F#8, 0x63#8])
        smallVolume.rootClus = none ∧
      smallVolume.findDirectoryEntry ⟨blankDisk, []⟩ [0x62#8] smallVolume.rootClus = none ∧
      ((smallVolume.view blankDisk).entry
        ⟨smallVolume.directoryOf smallVolume.rootClus, 0⟩).isFree = true ∧
      0 + 1 + smallVolume.clustersFor 3 ≤ (smallVolume.view blankDisk).freeClusters.length ∧
      (smallVolume.copyFileFrom ⟨blankDisk, []⟩ smallVolume oneFileDisk [0x61#8]
        [0x62#8, 0x2F#8, 0x63#8] (some fun _ => 0)).1 = true := by
    decide +kernel
  have hlong : (smallVolume.copyFileFrom ⟨oneFileDisk.store, []⟩ smallVolume oneFileDisk [0x61#8]
        longPath (some fun _ => 0)).1 = true ∧
      smallVolume.getFileEntry ⟨oneFileDisk.store, []⟩ longPath 0 = none ∧
      smallVolume.resolveAlong ⟨oneFileDisk.store, []⟩ true (copyNames longPath)
        smallVolume.rootClus = none ∧
      smallVolume.readFile oneFileDisk [0x61#8] 512 0 = (3, [0x2A#8, 0x2A#8, 0x2A#8]) := by
    decide +kernel
  obtain ⟨hlength, hnames, hentry, hresolve, hnone, hfree, hroom, hres⟩ := heval
  obtain ⟨hcut, hentry', hresolve', hsource⟩ := hlong
  have hother : ¬SameNames longPath := by
    decide +kernel
  have hcopy : Copyable smallVolume ⟨blankDisk, []⟩ [0x62#8, 0x2F#8, 0x63#8] :=
    .of_nothing smallVolume_geometry blankDisk_wellFormed.searchable (by decide +kernel) hentry
      hresolve fun hno => absurd hsame hno
  have hcopy' : Copyable smallVolume ⟨oneFileDisk.store, []⟩ longPath :=
    .of_nothing smallVolume_geometry oneFileDisk_wellFormed.searchable (by decide +kernel) hentry'
      hresolve' fun _ => oneFileDisk_tree
  refine ⟨hres, (copy_faithful_when _ _ _ _ _ _ _).1 (Or.inr (Or.inr (Or.inr ⟨hcopy,
    Or.inl ⟨⟨hsame, ?_⟩, by rwa [hsize]⟩⟩))), fun hfaithful => ?_⟩
  · rw [hnames, hsize, HasPlace, hnone]
    exact ⟨⟨0, by decide, hfree⟩, hroom⟩
  · rcases (copy_faithful_when _ _ _ _ _ _ _).2 hcopy' hfaithful with
      h0 | hmemory | ⟨hgeo, hv, hblocked⟩ | ⟨-, ⟨⟨hyes, -⟩, -⟩ | ⟨-, hread⟩⟩
    · rw [hsize] at h0
      cases h0
    · cases hmemory
    · exact (copyFileFrom_fst_iff hgeo hv (by rw [hsize]; decide)).mp hcut hblocked
    · exact hother hyes
    · have hread := hread 512
      rw [hsource, readFile, hentry'] at hread
      cases hread

/-- In a full root directory there is no entry for the copy of a file, and on the blank volume there
is none at the end of a long path, but success is reported. -/
theorem copy_not_faithful : Geometry smallVolume ∧
    (WellFormed smallVolume fullDisk ∧ SameNames [0x7A#8] ∧
      (smallVolume.copyFileFrom ⟨fullDisk, []⟩ smallVolume oneFileDisk [0x61#8] [0x7A#8]
        (some fun _ => 0)).1 = true ∧
      smallVolume.readFile (smallVolume.copyFileFrom ⟨fullDisk, []⟩ smallVolume oneFileDisk [0x61#8]
        [0x7A#8] (some fun _ => 0)).2 [0x7A#8] 512 0 = (0, []) ∧
      ¬CopyFaithful smallVolume ⟨fullDisk, []⟩ smallVolume oneFileDisk [0x61#8] [0x7A#8]
        (some fun _ => 0)) ∧
    WellFormed smallVolume blankDisk ∧
      (smallVolume.copyFileFrom ⟨blankDisk, []⟩ smallVolume oneFileDisk [0x61#8] longPath
        (some fun _ => 0)).1 = true ∧
      smallVolume.readFile (smallVolume.copyFileFrom ⟨blankDisk, []⟩ smallVolume oneFileDisk
        [0x61#8] longPath (some fun _ => 0)).2 longPath 512 0 = (0, []) ∧
      ¬CopyFaithful smallVolume ⟨blankDisk, []⟩ smallVolume oneFileDisk [0x61#8] longPath
        (some fun _ => 0) := by
  have heval : (smallVolume.copyFileFrom ⟨fullDisk, []⟩ smallVolume oneFileDisk [0x61#8] [0x7A#8]
        (some fun _ => 0)).1 = true ∧
      smallVolume.readFile (smallVolume.copyFileFrom ⟨fullDisk, []⟩ smallVolume oneFileDisk [0x61#8]
        [0x7A#8] (some fun _ => 0)).2 [0x7A#8] 512 0 = (0, []) ∧
      (smallVolume.copyFileFrom ⟨blankDisk, []⟩ smallVolume oneFileDisk [0x61#8] longPath
        (some fun _ => 0)).1 = true ∧
      smallVolume.readFile (smallVolume.copyFileFrom ⟨blankDisk, []⟩ smallVolume oneFileDisk
        [0x61#8] longPath (some fun _ => 0)).2 longPath 512 0 = (0, []) ∧
      smallVolume.readFile oneFileDisk [0x61#8] 512 0 = (3, [0x2A#8, 0x2A#8, 0x2A#8]) := by
    decide +kernel
  obtain ⟨hfull, hlost, hcut, hlong, hsource⟩ := heval
  refine ⟨smallVolume_geometry, ⟨fullDisk_wellFormed, by decide +kernel, hfull, hlost,
    fun hfaithful => ?_⟩, blankDisk_wellFormed, hcut, hlong, fun hfaithful => ?_⟩
  · have hread := hfaithful hfull 512
    rw [hlost, hsource] at hread
    cases hread
  · have hread := hfaithful hcut 512
    rw [hlong, hsource] at hread
    cases hread

end Sylphia
