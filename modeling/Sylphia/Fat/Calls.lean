import Sylphia.Fat.Operations

/-!
# Calls of the driver

The four calls that change a volume. Each of them keeps a sound volume sound and leaves
alone every file but its target, also when the disk or the directory is full.
-/

namespace Sylphia

open Bytes WriteLog Chain FAT32Driver

/-- The calls that change a volume. -/
inductive FatCall
  | writeFile (name : List Byte) (data : Buffer) (size parentCluster : Nat)
  | appendFile (name : CString) (data : Buffer) (size parentCluster : Nat)
  | deleteFile (name : List Byte) (parentCluster : Nat)
  | createDirectory (name : List Byte) (parentCluster : Nat)

namespace FatCall

/-- `parent_cluster`. -/
def parentCluster : FatCall → Nat
  | .writeFile _ _ _ p => p
  | .appendFile _ _ _ p => p
  | .deleteFile _ p => p
  | .createDirectory _ p => p

/-- The device after the call; `none` for a call that never ends. -/
def run (fs : FAT32Driver) (dev : BlockDevice) : FatCall → Option BlockDevice
  | .writeFile name data size p => some (fs.writeFile dev name data size p)
  | .appendFile name data size p => fs.appendFile dev name data size p
  | .deleteFile name p => (fs.deleteFile dev name p).map Prod.snd
  | .createDirectory name p => some (fs.createDirectory dev name p).2

/-- The entry that the call is about, if there is one. -/
def target (fs : FAT32Driver) (dev : BlockDevice) : FatCall → Option Slot
  | .writeFile .. => none
  | .appendFile name _ _ p => fs.findSlot dev name.chars p
  | .deleteFile name p => (fs.searchLoop dev name loopBound (fs.directoryOf p)).join
  | .createDirectory .. => none

/-- A name for a new entry of a directory. -/
structure NewName (fs : FAT32Driver) (V : View) (d : Nat) (name : List Byte) : Prop where
  length : name.length = 11
  first : name.getD 0 0 ≠ 0 ∧ name.getD 0 0 ≠ 0xE5#8
  absent : ∀ ds, ClusterChain fs V d ds → ∀ t ∈ V.live (fs.slots ds), (V.entry t).name ≠ name

/-- The call is made in a directory of the volume; a new entry has a new name, and
`AppendFile` and `DeleteFile` are for a regular file. -/
def Proper (fs : FAT32Driver) (dev : BlockDevice) (call : FatCall) : Prop :=
  IsDirectory fs (fs.view dev.store) (fs.directoryOf call.parentCluster) ∧
    match call with
    | .writeFile name _ _ p => NewName fs (fs.view dev.store) (fs.directoryOf p) name
    | .createDirectory name p => NewName fs (fs.view dev.store) (fs.directoryOf p) name
    | call => ∃ s, call.target fs dev = some s ∧
        ((fs.view dev.store).entry s).isDirectory = false

/-- The call is made in a directory of the volume, with a name of eleven bytes for a new
entry; `AppendFile` is for a file. -/
def InVolume (fs : FAT32Driver) (dev : BlockDevice) (call : FatCall) : Prop :=
  IsDirectory fs (fs.view dev.store) (fs.directoryOf call.parentCluster) ∧
    match call with
    | .writeFile name _ _ _ => name.length = 11
    | .createDirectory name _ => name.length = 11
    | .appendFile name _ _ p => ∀ s, fs.findSlot dev name.chars p = some s →
        ((fs.view dev.store).entry s).isDirectory = false
    | .deleteFile _ _ => True

end FatCall

section Kept

variable {fs : FAT32Driver} {dev dev₁ : BlockDevice} {V V' : View} {name : List Byte} {s : Slot}
  {d first size parentCluster : Nat} {attr : Byte} {ds new : List Nat}

/-- Nobody misses what a slot that was not live had. -/
theorem Kept.of_free (h : Kept fs (some s) V V') (hs : (V.entry s).isLive = false) :
    Kept fs none V V' where
  dirs := h.dirs
  find := fun d ds hd hc n name t ht _ => by
    refine h.find d ds hd hc n name t ht fun hst => ?_
    rw [Option.some.inj hst, isLive_of_mem_live (mem_of_find ht)] at hs
    cases hs
  files := fun t cs ht _ => by
    refine h.files t cs ht fun hst => ?_
    obtain ⟨_, _, -, -, hlive, -⟩ := ht
    rw [Option.some.inj hst, isLive_of_mem_live hlive] at hs
    cases hs

theorem Within.frame_none (h : Within fs V [] V') (hv : SoundVolume fs V) :
    SoundVolume fs V' ∧ SameDirectories fs V V' ∧ Kept fs none V V' :=
  h.frame hv (fun t ht => by cases ht) fun _ _ _ _ _ => Or.inr fun _ _ hx => by cases hx

/-- The new clusters are for the new entry. -/
theorem acquires_create (hv : SoundVolume fs V) (hg : Lengthens fs V V' [] new)
    (hname : name.length = 11) (hfirst : new.head? = some first)
    (hempty : attr &&& 0x10#8 ≠ 0 → V'.Ended (fs.slots new) ∧
      ∀ t ∈ V'.live (fs.slots new), (V'.entry t).isDot = true) :
    Acquires fs V' s (.create name first size attr) := by
  intro _ _
  have hlt := (hg.lt (List.mem_of_head? hfirst)).2.2.2
  rw [DirectoryEntry.firstCluster_create hname hlt]
  obtain ⟨-, hsame, -⟩ := hg.within.frame_none hv
  refine ⟨new, hg.chain first hfirst, fun o c es ho _ hes x hx hx' => ?_, fun hdir => hempty ?_⟩
  · rw [hsame.owns_iff hv] at ho
    exact (hg.other_chain hv ho (fun _ _ _ _ hx => by cases hx) hes).2 x hx' hx
  · rw [DirectoryEntry.isDirectory, DirectoryEntry.attr_create hname, bne_iff_ne] at hdir
    exact hdir

/-- The new entry is in a slot that was free. -/
structure Published (fs : FAT32Driver) (V₁ V₂ : View) (d i : Nat) (ds : List Nat)
    (e : DirectoryEntry) : Prop where
  view : V₂ = V₁.setSlot ⟨d, i⟩ e
  length : e.length = 32
  free : (V₁.entry ⟨d, i⟩).isFree = true
  change : ∃ pre post, SlotUpdate fs V₁ V₂ d ds pre ⟨d, i⟩ post

section AddEntry

variable (hgeo : Geometry fs) (hv : SoundVolume fs (fs.view dev.store))
  (hg : Lengthens fs (fs.view dev.store) (fs.view dev₁.store) [] new)
  (hd : IsDirectory fs (fs.view dev.store) (fs.directoryOf parentCluster))
  (hname : FatCall.NewName fs (fs.view dev.store) (fs.directoryOf parentCluster) name)
  (hfirst : new.head? = some first)
  (hempty : attr &&& 0x10#8 ≠ 0 → (fs.view dev₁.store).Ended (fs.slots new) ∧
    ∀ t ∈ (fs.view dev₁.store).live (fs.slots new), ((fs.view dev₁.store).entry t).isDot = true)
include hgeo hv hg hd hname hfirst hempty

/-- `AddDirectoryEntry` for a chain of new clusters. -/
theorem addEntry_cases (size : Nat) : ∃ ds,
    ClusterChain fs (fs.view dev.store) (fs.directoryOf parentCluster) ds ∧
    ((fs.addDirectoryEntry dev₁ name first size attr parentCluster = dev₁ ∧
        ∀ j < fs.slotsPerCluster,
          ((fs.view dev.store).entry ⟨fs.directoryOf parentCluster, j⟩).isFree = false) ∨
      ∃ i buf, fs.addDirectoryEntry dev₁ name first size attr parentCluster =
          fs.writeSlot dev₁ buf ⟨fs.directoryOf parentCluster, i⟩ (.create name first size attr) ∧
        Published fs (fs.view dev₁.store)
          (fs.view (fs.addDirectoryEntry dev₁ name first size attr parentCluster).store)
          (fs.directoryOf parentCluster) i ds (.create name first size attr)) := by
  obtain ⟨hv₁, hsame, -⟩ := hg.within.frame_none hv
  obtain ⟨ds, hc⟩ := hv.directory_chain hd
  have hd₁ := (hsame.isDirectory_iff hv).mpr hd
  have hc₁ := (hsame _ ds hd hc).1
  obtain ⟨h2, -, -, h32⟩ := ClusterChain.lt hc₁ hc₁.head_mem
  refine ⟨ds, hc, ?_⟩
  rcases @addDirectoryEntry_eq fs dev₁ _ name first size parentCluster attr rfl h2 h32 with
    ⟨heq, hfull⟩ | ⟨i, hi, hfree, hbefore, heq⟩
  · refine Or.inl ⟨heq, fun j hj => ?_⟩
    rw [← hsame.entry hd hc (mem_slots.mpr ⟨hc.head_mem, hj⟩)]
    exact hfull j hj
  · have hlen := DirectoryEntry.length_create hname.length first size attr
    have hlt := hg.lt (List.mem_of_head? hfirst)
    obtain ⟨hview, -⟩ := @writeSlot_view fs (fun _ => True) _ hgeo dev₁
      ⟨fs.directoryOf parentCluster, i⟩ h2 h32 hi _ hlen fun k hk => read_cluster dev₁ h2 h32 hk
    rw [← heq] at hview
    refine Or.inr ⟨i, _, heq, hview, hlen, hfree, ?_⟩
    rw [hview]
    refine publish_change hd₁ hc₁ hi hfree hbefore hlen
      (acquires_create hv hg hname.length hfirst hempty) ?_ (fun _ _ _ => ?_) fun t ht => ?_
    · rw [DirectoryEntry.first_create hname.length]
      exact hname.first.1
    · rw [DirectoryEntry.firstCluster_create hname.length hlt.2.2.2]
      omega
    · rw [hsame.live_eq hd hc] at ht
      rw [hsame.entry hd hc (live_subset _ _ t ht), DirectoryEntry.name_create hname.length]
      exact hname.absent ds hc t ht

theorem addEntry_kept (size : Nat) :
    SoundVolume fs (fs.view (fs.addDirectoryEntry dev₁ name first size attr parentCluster).store) ∧
      Kept fs none (fs.view dev.store)
        (fs.view (fs.addDirectoryEntry dev₁ name first size attr parentCluster).store) := by
  obtain ⟨hv₁, -, hkept⟩ := hg.within.frame_none hv
  obtain ⟨ds, -, ⟨heq, -⟩ | ⟨i, -, -, hpub⟩⟩ :=
    addEntry_cases hgeo hv hg hd hname hfirst hempty size
  · rw [heq]
    exact ⟨hv₁, hkept⟩
  · obtain ⟨pre, post, hchange⟩ := hpub.change
    exact ⟨hchange.sound hv₁,
      hkept.trans ((hchange.kept hv₁).of_free (isLive_of_isFree hpub.free))⟩

end AddEntry

variable {data : Buffer}

theorem writeFile_kept (hgeo : Geometry fs) (hv : SoundVolume fs (fs.view dev.store))
    (hd : IsDirectory fs (fs.view dev.store) (fs.directoryOf parentCluster))
    (hname : FatCall.NewName fs (fs.view dev.store) (fs.directoryOf parentCluster) name) :
    SoundVolume fs (fs.view (fs.writeFile dev name data size parentCluster).store) ∧
      Kept fs none (fs.view dev.store)
        (fs.view (fs.writeFile dev name data size parentCluster).store) := by
  by_cases hsize : size = 0
  · rw [writeFile_empty hsize]
    have hsame : Lengthens fs (fs.view dev.store) (fs.view dev.store) [] [] :=
      .refl fun _ hc => by cases hc
    exact ⟨hv, (hsame.within.frame_none hv).2.2⟩
  · obtain ⟨new, dev₁, hg, -, ⟨heq, -⟩ | ⟨first, hfirst, -, -, heq⟩⟩ :=
      @writeFile_cases fs dev name data size parentCluster hgeo hsize
    · obtain ⟨hv₁, -, hkept⟩ := hg.within.frame_none hv
      rw [heq]
      exact ⟨hv₁, hkept⟩
    · rw [heq]
      exact addEntry_kept hgeo hv hg hd hname hfirst (fun h => absurd rfl h) size

theorem createDirectory_kept (hgeo : Geometry fs) (hv : SoundVolume fs (fs.view dev.store))
    (hd : IsDirectory fs (fs.view dev.store) (fs.directoryOf parentCluster))
    (hname : FatCall.NewName fs (fs.view dev.store) (fs.directoryOf parentCluster) name) :
    SoundVolume fs (fs.view (fs.createDirectory dev name parentCluster).2.store) ∧
      Kept fs none (fs.view dev.store)
        (fs.view (fs.createDirectory dev name parentCluster).2.store) := by
  rcases @createDirectory_cases fs dev name parentCluster hgeo with
    ⟨heq, -⟩ | ⟨c, dev₁, hg, -, hdata, heq⟩
  · rw [heq]
    have hsame : Lengthens fs (fs.view dev.store) (fs.view dev.store) [] [] :=
      .refl fun _ hc => by cases hc
    exact ⟨hv, (hsame.within.frame_none hv).2.2⟩
  · rw [heq]
    exact addEntry_kept hgeo hv hg hd hname rfl (fun _ => dotEntries_empty hdata) 0

/-- `AppendFile` for a name that is not there. -/
theorem appendFile_new {name : CString} (hsize : size ≠ 0)
    (hs : fs.findSlot dev name.chars parentCluster = none) :
    fs.appendFile dev name data size parentCluster =
      some (fs.writeFile dev name.eleven data size parentCluster) := by
  have hnone : fs.findDirectoryEntry dev name.chars (fs.directoryOf parentCluster) = none := by
    rw [findDirectoryEntry, findSlot_directoryOf, hs, Option.map_none]
  rw [appendFile, if_neg hsize]
  dsimp only
  rw [hnone]

theorem CString.length_eleven (name : CString) : name.eleven.length = 11 := by
  rw [CString.eleven, List.length_take, List.length_append, List.length_replicate]
  omega

/-- `AppendFile` for a file: nothing is done, or the clusters of the file are changed, and
then its entry. -/
theorem appendFile_updated {name : CString} (data : Buffer) (size : Nat) (hgeo : Geometry fs)
    (hv : SoundVolume fs (fs.view dev.store))
    (hd : IsDirectory fs (fs.view dev.store) (fs.directoryOf parentCluster))
    (hs : fs.findSlot dev name.chars parentCluster = some s)
    (hfile : ((fs.view dev.store).entry s).isDirectory = false) :
    fs.appendFile dev name data size parentCluster = some dev ∨
    ∃ dev' V₁ d ds pre post, fs.appendFile dev name data size parentCluster = some dev' ∧
      SoundVolume fs V₁ ∧ SameDirectories fs (fs.view dev.store) V₁ ∧
      Kept fs (some s) (fs.view dev.store) V₁ ∧
      SlotUpdate fs V₁ (fs.view dev'.store) d ds pre s post ∧
      ((fs.view dev'.store).entry s).isDirectory = false := by
  by_cases hsize : size = 0
  · exact Or.inl (if_pos hsize)
  · obtain ⟨ds, hc⟩ := hv.directory_chain hd
    rw [findSlot, findLoop_eq hc] at hs
    obtain ⟨hlist, hlive⟩ := listed_of_find hd hc hs
    obtain ⟨pre, post, hslots, hpre⟩ := split_of_mem_live hlive
    rcases @appendFile_cases fs dev data _ size parentCluster ds s name hgeo hv rfl hd hc hsize hs
      hfile with ⟨heq, -⟩ | ⟨cs, new, first, dev₁, happ, -, heq⟩
    · exact Or.inl heq
    · obtain ⟨hv₁, hsame₁, hkept⟩ := happ.frame hv hlist hfile
      obtain ⟨hmem, hi⟩ := mem_slots.mp (live_subset _ _ s hlive)
      obtain ⟨h2, -, -, h32⟩ := ClusterChain.lt hc hmem
      obtain ⟨hlen, -, -, hattr, -⟩ :=
        appended_keeps (length_entry (fs.view dev.store) s) size first
      obtain ⟨hview, -⟩ := @writeSlot_view fs (fun _ => True) _ hgeo dev₁ s h2 h32 hi _ hlen
        fun k hk => read_cluster dev₁ h2 h32 hk
      refine Or.inr ⟨_, _, fs.directoryOf parentCluster, ds, pre, post, heq, hv₁, hsame₁, hkept,
        ?_, ?_⟩
      · rw [hview]
        exact happ.change hv hlist hfile size hd hc hslots hpre
      · rw [hview, (entry_setSlot _ s hlen).1, DirectoryEntry.isDirectory, hattr]
        exact hfile

theorem appendFile_kept {name : CString} (data : Buffer) (size : Nat) (hgeo : Geometry fs)
    (hv : SoundVolume fs (fs.view dev.store))
    (hd : IsDirectory fs (fs.view dev.store) (fs.directoryOf parentCluster))
    (hs : fs.findSlot dev name.chars parentCluster = some s)
    (hfile : ((fs.view dev.store).entry s).isDirectory = false) :
    ∃ dev', fs.appendFile dev name data size parentCluster = some dev' ∧
      SoundVolume fs (fs.view dev'.store) ∧
      Kept fs (some s) (fs.view dev.store) (fs.view dev'.store) := by
  rcases appendFile_updated data size hgeo hv hd hs hfile with
    heq | ⟨dev', V₁, d, ds, pre, post, heq, hv₁, -, hkept, hchange, -⟩
  · have hrefl : Lengthens fs (fs.view dev.store) (fs.view dev.store) [] [] :=
      .refl fun _ hc => by cases hc
    exact ⟨dev, heq, hv, (hrefl.within.frame_none hv).2.2.mono _⟩
  · exact ⟨dev', heq, hchange.sound hv₁, hkept.trans (hchange.kept hv₁)⟩

/-- What `DeleteFile` makes of the view: the entry goes, and then its clusters. -/
structure Removed (fs : FAT32Driver) (V V' : View) (d : Nat) (ds : List Nat) (s : Slot)
    (cs : List Nat) : Prop where
  listed : Listed fs V s
  file : FileChain fs V s cs
  view : V' = (V.setSlot s (V.entry s).delete).clear cs
  change : ∃ pre post, SlotChange fs V (V.setSlot s (V.entry s).delete) d ds pre s post

/-- A file is deleted. -/
structure Deleted (fs : FAT32Driver) (V V' : View) (d : Nat) (ds : List Nat) (s : Slot)
    (cs : List Nat) : Prop where
  listed : Listed fs V s
  file : FileChain fs V s cs
  view : V' = (V.setSlot s (V.entry s).delete).clear cs
  change : ∃ pre post, SlotUpdate fs V (V.setSlot s (V.entry s).delete) d ds pre s post

/-- The entry is no owner any more. -/
theorem owner_delete (V : View) (s : Slot) :
    ((V.setSlot s (V.entry s).delete).entry s).owner = false := by
  rw [(entry_setSlot _ s (DirectoryEntry.length_delete (length_entry _ s))).1]
  rfl

/-- Nobody owns the clusters when they are freed. -/
theorem Removed.frame {cs : List Nat} (h : Removed fs V V' d ds s cs) (hv : SoundVolume fs V) :
    SoundVolume fs V' ∧ SameDirectories fs (V.setSlot s (V.entry s).delete) V' ∧
      Kept fs none (V.setSlot s (V.entry s).delete) V' := by
  obtain ⟨pre, post, hchange⟩ := h.change
  rw [h.view]
  refine frame_clear (hchange.sound hv) cs fun o b es ho hes => ?_
  rcases hchange.owns_cases hv (hchange.back hv) ho with ⟨hne, ho⟩ | ⟨-, howner, -⟩
  · exact h.file.apart hv h.listed ho hne (hchange.chain_iff.mp hes)
  · rw [owner_delete] at howner
    cases howner

namespace Deleted

variable {cs : List Nat} (h : Deleted fs V V' d ds s cs)
include h

theorem removed : Removed fs V V' d ds s cs := by
  obtain ⟨pre, post, hchange⟩ := h.change
  exact ⟨h.listed, h.file, h.view, pre, post, hchange.toSlotChange⟩

theorem frame (hv : SoundVolume fs V) : SoundVolume fs V' ∧
    SameDirectories fs (V.setSlot s (V.entry s).delete) V' ∧ Kept fs (some s) V V' := by
  obtain ⟨pre, post, hchange⟩ := h.change
  obtain ⟨hv', hsame, hkept⟩ := h.removed.frame hv
  exact ⟨hv', hsame, (hchange.kept hv).trans (hkept.mono _)⟩

end Deleted

theorem deleteFile_removed (hgeo : Geometry fs) (hv : SoundVolume fs (fs.view dev.store))
    (hd : IsDirectory fs (fs.view dev.store) (fs.directoryOf parentCluster))
    (hs : (fs.searchLoop dev name loopBound (fs.directoryOf parentCluster)).join = some s) :
    ∃ ds cs dev', fs.deleteFile dev name parentCluster = some (true, dev') ∧
      (Mirrored fs dev.store → Mirrored fs dev'.store) ∧
      Removed fs (fs.view dev.store) (fs.view dev'.store) (fs.directoryOf parentCluster)
        ds s cs := by
  obtain ⟨ds, hc⟩ := hv.directory_chain hd
  rw [searchLoop_eq hc (hv.ended _ ds hd hc) (ClusterChain.length_lt hc), Option.join_some] at hs
  obtain ⟨hnone, -⟩ | ⟨t, cs, dev₁, hfind, hchain, -, ⟨hview, hboth, -⟩, heq⟩ :=
    @deleteFile_cases fs dev name _ parentCluster ds hgeo hv rfl hd hc
  · rw [hnone] at hs
    cases hs
  · obtain rfl : t = s := Option.some.inj (hfind.symm.trans hs)
    have hlive := mem_of_find hfind
    obtain ⟨pre, post, hslots, hpre⟩ := split_of_mem_live hlive
    obtain ⟨hmem, hi⟩ := mem_slots.mp (live_subset _ _ t hlive)
    obtain ⟨h2, -, -, h32⟩ := ClusterChain.lt hc hmem
    obtain ⟨hwrite, -⟩ := @writeSlot_view fs (fun _ => True)
      (BlockDevice.read dev (fs.clusterToLBA t.cluster)) hgeo dev₁ t h2 h32 hi _
      (DirectoryEntry.length_delete (length_entry (fs.view dev.store) t)) fun k hk => by
        rw [hview]
        exact read_cluster dev h2 h32 hk
    refine ⟨ds, cs, _, heq, fun hm => mirrored_writeSlot hgeo (hboth.mirrored hm) _ _,
      ⟨_, ds, hd, hc, hlive, isDot_of_isNameEqual (name_of_find hfind)⟩, hchain, ?_,
      pre, post, delete_change hd hc hslots hpre⟩
    rw [hwrite, hview]
    rfl

theorem deleteFile_deleted (hgeo : Geometry fs) (hv : SoundVolume fs (fs.view dev.store))
    (hd : IsDirectory fs (fs.view dev.store) (fs.directoryOf parentCluster))
    (hs : (fs.searchLoop dev name loopBound (fs.directoryOf parentCluster)).join = some s)
    (hfile : ((fs.view dev.store).entry s).isDirectory = false) :
    ∃ ds cs dev', fs.deleteFile dev name parentCluster = some (true, dev') ∧
      (Mirrored fs dev.store → Mirrored fs dev'.store) ∧
      Deleted fs (fs.view dev.store) (fs.view dev'.store) (fs.directoryOf parentCluster)
        ds s cs := by
  obtain ⟨ds, cs, dev', heq, hmirror, h⟩ := deleteFile_removed hgeo hv hd hs
  obtain ⟨pre, post, hchange⟩ := h.change
  refine ⟨ds, cs, dev', heq, hmirror, h.listed, h.file, h.view, pre, post, hchange,
    fun _ hdir => ?_⟩
  rw [hfile] at hdir
  cases hdir

/-- A call keeps the volume sound, and everything but its target. -/
theorem FatCall.run_kept {call : FatCall} (hgeo : Geometry fs)
    (hv : SoundVolume fs (fs.view dev.store)) (hcall : call.Proper fs dev) :
    ∃ dev', call.run fs dev = some dev' ∧ SoundVolume fs (fs.view dev'.store) ∧
      Kept fs (call.target fs dev) (fs.view dev.store) (fs.view dev'.store) ∧
      ∀ t, call.target fs dev = some t → ((fs.view dev.store).entry t).isDirectory = false := by
  obtain ⟨hd, hcall⟩ := hcall
  cases call with
  | writeFile name data size p =>
    exact ⟨_, rfl, (writeFile_kept hgeo hv hd hcall).1, (writeFile_kept hgeo hv hd hcall).2,
      fun t ht => by cases ht⟩
  | createDirectory name p =>
    exact ⟨_, rfl, (createDirectory_kept hgeo hv hd hcall).1,
      (createDirectory_kept hgeo hv hd hcall).2, fun t ht => by cases ht⟩
  | appendFile name data size p =>
    obtain ⟨s, hs, hfile⟩ := hcall
    obtain ⟨dev', heq, hv', hkept⟩ := appendFile_kept data size hgeo hv hd hs hfile
    refine ⟨dev', heq, hv', ?_, fun t ht => ?_⟩
    · rw [hs]
      exact hkept
    · rw [Option.some.inj (hs.symm.trans ht)] at hfile
      exact hfile
  | deleteFile name p =>
    obtain ⟨s, hs, hfile⟩ := hcall
    obtain ⟨ds, cs, dev', heq, -, hdel⟩ := deleteFile_deleted hgeo hv hd hs hfile
    obtain ⟨hv', -, hkept⟩ := hdel.frame hv
    refine ⟨dev', ?_, hv', ?_, fun t ht => ?_⟩
    · exact congrArg (Option.map Prod.snd) heq
    · rw [hs]
      exact hkept
    · rw [Option.some.inj (hs.symm.trans ht)] at hfile
      exact hfile

/-- Every other file stays intact: a path that led to another entry than the target of the
call leads to the same entry afterwards, and a file there reads as before. -/
theorem other_files_intact (call : FatCall) (hgeo : Geometry fs)
    (hv : SoundVolume fs (fs.view dev.store)) (hcall : call.Proper fs dev) :
    ∃ dev', call.run fs dev = some dev' ∧ ∀ path base s,
      IsDirectory fs (fs.view dev.store) (fs.directoryOf base) →
      fs.resolve dev path base = some s → call.target fs dev ≠ some s →
      fs.getFileEntry dev' path base = fs.getFileEntry dev path base ∧
        ((fs.slotEntry dev s).isDirectory = false ∨ (fs.slotEntry dev s).fileSize = 0 →
          ∀ bufferSize, fs.readFile dev' path bufferSize base =
            fs.readFile dev path bufferSize base) := by
  obtain ⟨dev', hrun, -, hkept, hT⟩ := FatCall.run_kept hgeo hv hcall
  refine ⟨dev', hrun, fun path base s hbase hr hs => ⟨?_, fun hfile bufferSize => ?_⟩⟩
  · obtain ⟨hr', he, -⟩ := resolve_kept hv hkept hT hbase hr hs
    rw [getFileEntry, getFileEntry, hr, hr', Option.map_some, Option.map_some, he]
  · exact readFile_kept hv hkept hT hbase hr hs hfile

end Kept

/-- One sector for a FAT and for a cluster, and the root directory in cluster 2. -/
def smallVolume : FAT32Driver := ⟨1, 1, 2, 0, 2⟩

/-- The volume as it is formatted. -/
def blankDisk : Disk := fun lba k =>
  if lba < 2 then
    ([0xF8#8, 0xFF#8, 0xFF#8, 0x0F#8, 0xFF#8, 0xFF#8, 0xFF#8, 0x0F#8,
      0xFF#8, 0xFF#8, 0xFF#8, 0x0F#8] : List Byte).getD k 0
  else 0

/-- A name of one character, in capitals and with blanks. -/
def oneLetter (c : Byte) : List Byte := c :: List.replicate 10 0x20#8

theorem smallVolume_geometry : Geometry smallVolume := ⟨by decide, by decide, by decide, rfl⟩

theorem root_chain {V : View} (h : endOfChain ≤ V.fat 2 % 2 ^ 28) :
    ClusterChain smallVolume V smallVolume.rootClus [2] :=
  .last (c := 2) ⟨by decide, by decide, by decide⟩ h

theorem blankDisk_sound : SoundVolume smallVolume (smallVolume.view blankDisk) := by
  have heval : endOfChain ≤ (smallVolume.view blankDisk).fat 2 % 2 ^ 28 ∧
      ((smallVolume.slots [2]).all fun s => ((smallVolume.view blankDisk).entry s).first == 0) := by
    decide +kernel
  refine (flat_of_zero (root_chain heval.1) fun s hs => ?_).sound
  simpa using List.all_eq_true.mp heval.2 s hs

/-- The file `A` of three bytes is written. -/
def oneFileDisk : BlockDevice :=
  smallVolume.writeFile ⟨blankDisk, []⟩ (oneLetter 0x41#8) (fun _ => 0x2A#8) 3 0

/-- A name that no entry of the root directory has. -/
theorem newName_small {V : View} {name : List Byte} (hroot : endOfChain ≤ V.fat 2 % 2 ^ 28)
    (hname : name.length = 11 ∧ name.getD 0 0 ≠ 0 ∧ name.getD 0 0 ≠ 0xE5#8)
    (habsent : (V.live (smallVolume.slots [2])).all fun t => (V.entry t).name != name) :
    FatCall.NewName smallVolume V (smallVolume.directoryOf 0) name := by
  refine ⟨hname.1, hname.2, fun ds hc t ht => ?_⟩
  rw [hc.unique (root_chain hroot)] at ht
  simpa using List.all_eq_true.mp habsent t ht

theorem oneFileDisk_sound : SoundVolume smallVolume (smallVolume.view oneFileDisk.store) := by
  have heval : endOfChain ≤ (smallVolume.view blankDisk).fat 2 % 2 ^ 28 ∧
      ((smallVolume.view blankDisk).live (smallVolume.slots [2])).all fun t =>
        ((smallVolume.view blankDisk).entry t).name != oneLetter 0x41#8 := by
    decide +kernel
  have hnew : FatCall.NewName smallVolume (smallVolume.view blankDisk) (smallVolume.directoryOf 0)
      (oneLetter 0x41#8) := newName_small heval.1 (by decide) heval.2
  rw [oneFileDisk]
  exact (@writeFile_kept smallVolume ⟨blankDisk, []⟩ (oneLetter 0x41#8) 3 0 (fun _ => 0x2A#8)
    smallVolume_geometry blankDisk_sound .root hnew).1

/-- The file `B` is written, and `A` reads as before. -/
theorem other_files_intact_small : ∃ dev',
    (FatCall.writeFile (oneLetter 0x42#8) (fun _ => 0#8) 600 0).run smallVolume oneFileDisk =
    some dev' ∧
      smallVolume.readFile dev' [0x61#8] 512 0 = (3, [0x2A#8, 0x2A#8, 0x2A#8]) := by
  have heval : endOfChain ≤ (smallVolume.view oneFileDisk.store).fat 2 % 2 ^ 28 ∧
      (((smallVolume.view oneFileDisk.store).live (smallVolume.slots [2])).all fun t =>
        ((smallVolume.view oneFileDisk.store).entry t).name != oneLetter 0x42#8) ∧
      smallVolume.resolve oneFileDisk [0x61#8] 0 = some ⟨2, 0⟩ ∧
      (smallVolume.slotEntry oneFileDisk ⟨2, 0⟩).isDirectory = false ∧
      smallVolume.readFile oneFileDisk [0x61#8] 512 0 = (3, [0x2A#8, 0x2A#8, 0x2A#8]) := by
    decide +kernel
  obtain ⟨hroot, habsent, hpath, hfile, hread⟩ := heval
  obtain ⟨dev', hrun, hintact⟩ := other_files_intact
    (.writeFile (oneLetter 0x42#8) (fun _ => 0#8) 600 0) smallVolume_geometry oneFileDisk_sound
    ⟨.root, newName_small hroot (by decide) habsent⟩
  obtain ⟨-, hsame⟩ := hintact [0x61#8] 0 ⟨2, 0⟩ .root hpath (by decide)
  exact ⟨dev', hrun, (hsame (Or.inl hfile) 512).trans hread⟩


end Sylphia
