import Sylphia.Fat.Survival
import Sylphia.Fat.Tree

/-!
# The calls on the file tree

The driver refines a file tree: each call changes the tree of the volume under one name, or not
at all when there is no room. A call that frees no clusters is atomic, so that after a power cut
the volume has the tree of before or the tree of after the call.
-/

namespace Sylphia

open Bytes WriteLog Chain FAT32Driver FileTree

instance (fs : FAT32Driver) (V : View) (d : Nat) : Decidable (FreeSlot fs V d) :=
  inferInstanceAs (Decidable (∃ i < fs.slotsPerCluster, (V.entry ⟨d, i⟩).isFree = true))

/-- A call that changes the tree when it is done, and at no moment leaves anything else than the
tree before or the tree afterwards. -/
structure Atomic (fs : FAT32Driver) (dev dev' : BlockDevice) (t t' : VolumeTree) (done : Prop) :
    Prop where
  all : done → Represents fs (fs.view dev'.store) t'
  nothing : ¬done → Represents fs (fs.view dev'.store) t
  cut : Passes fs (fun V => Represents fs V t ∨ Represents fs V t') dev dev'

section Entries

variable {fs : FAT32Driver} {dev dev₁ : BlockDevice} {V : View} {name : List Byte} {data : Buffer}
  {first size parentCluster : Nat} {attr : Byte} {new cs : List Nat} {p : List (List Byte)}
  {t : VolumeTree} {n : Node (List Byte)} {e : DirectoryEntry}

/-- The bytes of a file whose clusters have the data. -/
theorem Stored.contents (hgeo : Geometry fs) (h : Stored fs V data size cs)
    (hc : ClusterChain fs V e.firstCluster cs) (hsize : e.fileSize = size)
    (hlen : fs.clustersFor size ≤ cs.length) : Contents fs V e (slice data 0 size) := by
  refine ⟨(length_slice ..).trans hsize.symm, fun _ => ⟨cs, hc, hsize ▸ hlen, ?_⟩⟩
  rw [hsize]
  refine slice_congr fun k hk => ?_
  have hlt := (div_lt_clustersFor hgeo hk).trans_le hlen
  have hdiv : k / fs.clusterBytes * fs.clusterBytes + k % fs.clusterBytes = k :=
    Nat.div_add_mod' k fs.clusterBytes
  have hstored := h _ _ (List.getElem?_eq_getElem hlt) (k % fs.clusterBytes)
    (Nat.mod_lt _ (clusterBytes_pos hgeo)) (by omega)
  rw [hdiv] at hstored
  rw [Nat.zero_add, chainBuffer, List.getD_eq_getElem?_getD, List.getElem?_eq_getElem hlt,
    Option.getD_some, hstored]

/-- A name that is new in a directory is the name of no entry there. -/
theorem FatCall.NewName.absent_at {d : Nat} (h : FatCall.NewName fs V d name)
    (hnames : NamesUnique fs V) (hp : DirectoryAt fs V p d) {s : Slot} (hs : EntryAt fs V p s) :
    (V.entry s).name ≠ name := by
  obtain ⟨d', ds, hd', hc, hs, -⟩ := hs
  obtain rfl := hd'.unique hnames hp
  exact h.absent ds hc s hs

section AddEntry

variable (hgeo : Geometry fs) (h : NamedVolume fs (fs.view dev.store))
  (ht : Represents fs (fs.view dev.store) t)
  (hp : DirectoryAt fs (fs.view dev.store) p (fs.directoryOf parentCluster))
include hgeo h ht hp

/-- `AddDirectoryEntry` after clusters were taken puts what the entry stands for under the name, if
there is a slot for it. -/
theorem addEntry_represents (hg : Lengthens fs (fs.view dev.store) (fs.view dev₁.store) [] new)
    (hname : FatCall.NewName fs (fs.view dev.store) (fs.directoryOf parentCluster) name)
    (hdot : ¬DotName name) (hattr : attr ≠ 0x0F#8) (hfirst : new.head? = some first)
    (hempty : attr &&& 0x10#8 ≠ 0 → (fs.view dev₁.store).Ended (fs.slots new) ∧
      ∀ t ∈ (fs.view dev₁.store).live (fs.slots new), ((fs.view dev₁.store).entry t).isDot = true)
    (size : Nat)
    (hnode : ∀ V', V'.fat = (fs.view dev₁.store).fat →
      (∀ x ∈ new, V'.data x = (fs.view dev₁.store).data x) →
        EntryNode fs V' (.create name first size attr) n) :
    Represents fs (fs.view (fs.addDirectoryEntry dev₁ name first size attr parentCluster).store)
      (if FreeSlot fs (fs.view dev.store) (fs.directoryOf parentCluster) then t.put p name (some n)
        else t) := by
  obtain ⟨hv₁, hsame, hkept⟩ := hg.within.frame_none h.sound
  have ht₁ := ht.frame hgeo h.sound hsame hkept
  obtain ⟨ds, hds, ⟨heq, hfull⟩ | ⟨i, buf, -, hpub⟩⟩ :=
    addEntry_cases hgeo h.sound hg hp.isDirectory hname hfirst hempty size
  · have hno : ¬FreeSlot fs (fs.view dev.store) (fs.directoryOf parentCluster) := by
      rintro ⟨j, hj, hfree⟩
      rw [hfull j hj] at hfree
      cases hfree
    rw [heq, if_neg hno]
    exact ht₁
  · obtain ⟨pre, post, hchange⟩ := hpub.change
    have hyes : FreeSlot fs (fs.view dev.store) (fs.directoryOf parentCluster) := by
      refine ⟨i, (mem_slots.mp hchange.mem).2, ?_⟩
      rw [← hsame.entry hp.isDirectory hds hchange.mem]
      exact hpub.free
    have hentry := (entry_setSlot (fs.view dev₁.store) ⟨fs.directoryOf parentCluster, i⟩
      hpub.length).1
    rw [← hpub.view] at hentry
    have hslot (u : Slot) (hu : EntryAt fs (fs.view dev₁.store) p u) :
        u = ⟨fs.directoryOf parentCluster, i⟩ ↔ ((fs.view dev₁.store).entry u).name = name := by
      constructor
      · rintro rfl
        obtain ⟨_, _, -, -, hlive, -⟩ := hu
        have hlive := isLive_of_mem_live hlive
        rw [isLive_of_isFree hpub.free] at hlive
        cases hlive
      · intro hx
        rw [hsame.entryAt_iff h.sound] at hu
        rw [hsame.listed_entry hu.listed] at hx
        exact absurd hx (hname.absent_at h.unique hp hu)
    have howner := @owner_create name first size attr hname.length hname.first hdot hattr
    have hchain (x : Nat) (hx : x ∈ new) : (fs.view (fs.addDirectoryEntry dev₁ name first size attr
        parentCluster).store).data x = (fs.view dev₁.store).data x := by
      refine hchange.otherData x ?_
      rintro rfl
      exact fat_ne_zero hds hds.head_mem (hg.free _ hx).2.2
    rw [if_pos hyes]
    refine hchange.represents_put hv₁ ((hsame.directoryAt_iff h.sound).mpr hp) (ht₁.but _)
      (hchange.isLeaf ht₁ hslot) hgeo hslot (Or.inr ⟨n, ?_⟩)
    rw [hentry]
    exact ⟨howner, DirectoryEntry.name_create hname.length, hnode _ hchange.fat hchain, rfl⟩

/-- The free clusters are taken, and then there is the entry. -/
private theorem atomic_addEntry (hg : Lengthens fs (fs.view dev.store) (fs.view dev₁.store) [] new)
    (hadv : Advance fs (fs.view dev.store) [] dev dev₁)
    (hname : FatCall.NewName fs (fs.view dev.store) (fs.directoryOf parentCluster) name)
    (hdot : ¬DotName name) (hattr : attr ≠ 0x0F#8) (hfirst : new.head? = some first)
    (hempty : attr &&& 0x10#8 ≠ 0 → (fs.view dev₁.store).Ended (fs.slots new) ∧
      ∀ t ∈ (fs.view dev₁.store).live (fs.slots new), ((fs.view dev₁.store).entry t).isDot = true)
    (size : Nat)
    (hnode : ∀ V', V'.fat = (fs.view dev₁.store).fat →
      (∀ x ∈ new, V'.data x = (fs.view dev₁.store).data x) →
        EntryNode fs V' (.create name first size attr) n) :
    Atomic fs dev (fs.addDirectoryEntry dev₁ name first size attr parentCluster) t
      (t.put p name (some n)) (FreeSlot fs (fs.view dev.store) (fs.directoryOf parentCluster)) := by
  have hend := addEntry_represents hgeo h ht hp hg hname hdot hattr hfirst hempty size hnode
  obtain ⟨ds, hc⟩ := h.sound.directory_chain hp.isDirectory
  obtain ⟨h2, -, -, h32⟩ := ClusterChain.lt hc hc.head_mem
  have hpast : Passes fs (fun V => Represents fs V t ∨ Represents fs V (t.put p name (some n))) dev
      dev₁ := hadv.passes.mono fun _ hw => by
    obtain ⟨-, hsame, hkept⟩ := Within.frame_none hw h.sound
    exact Or.inl (ht.frame hgeo h.sound hsame hkept)
  refine ⟨fun hslot => ?_, fun hslot => ?_,
    passes_addEntry hgeo h2 h32 hname.length hpast ?_⟩
  · rwa [if_pos hslot] at hend
  · rwa [if_neg hslot] at hend
  · split at hend
    · exact Or.inr hend
    · exact Or.inl hend

/-- `WriteFile` puts a file, when there is room for it. -/
theorem writeFile_atomic (data : Buffer)
    (hname : FatCall.NewName fs (fs.view dev.store) (fs.directoryOf parentCluster) name)
    (hdot : ¬DotName name) (hsize : size ≠ 0) (h32 : size < 2 ^ 32) :
    Atomic fs dev (fs.writeFile dev name data size parentCluster) t
      (t.put p name (some (.file (slice data 0 size))))
      (¬(FatCall.writeFile name data size parentCluster).Incomplete fs dev) := by
  have hdone : ¬(FatCall.writeFile name data size parentCluster).Incomplete fs dev ↔
      fs.clustersFor size ≤ (fs.view dev.store).freeClusters.length ∧
        FreeSlot fs (fs.view dev.store) (fs.directoryOf parentCluster) := by
    rw [FatCall.Incomplete, FatCall.LacksRoom, not_and, not_or, Nat.not_lt, not_not]
    exact ⟨fun hroom => hroom hsize, fun hroom _ => hroom⟩
  obtain ⟨new, dev₁, hg, hadv, ⟨heq, hlen, hfull⟩ | ⟨first, hfirst, hlen, hstored, heq⟩⟩ :=
    @writeFile_cases fs dev name data size parentCluster hgeo hsize
  · have hfew := (hg.freeClusters_le (fun x hx => by cases hx) hfull).trans_lt hlen
    have hpast : Passes fs (fun V => Represents fs V t) dev dev₁ :=
      hadv.passes.mono fun _ hw => by
        obtain ⟨-, hsame, hkept⟩ := Within.frame_none hw h.sound
        exact ht.frame hgeo h.sound hsame hkept
    rw [heq]
    exact ⟨fun hroom => absurd (hdone.mp hroom).1 (Nat.not_le.mpr hfew), fun _ => hpast.last,
      hpast.mono fun _ ht => Or.inl ht⟩
  · have hlt := (hg.lt (List.mem_of_head? hfirst)).2.2.2
    have hentry := atomic_addEntry hgeo h ht hp (n := .file (slice data 0 size)) hg hadv hname hdot
      (show (0x20#8 : Byte) ≠ 0x0F#8 by decide) hfirst (fun ha => absurd rfl ha)
        size fun V' hfat hdata => ?_
    · rw [heq]
      have hfits : fs.clustersFor size ≤ (fs.view dev.store).freeClusters.length :=
        hlen ▸ hg.length_le_freeClusters
      exact ⟨fun hroom => hentry.all (hdone.mp hroom).2,
        fun hroom => hentry.nothing fun hslot => hroom (hdone.mpr ⟨hfits, hslot⟩), hentry.cut⟩
    · have hchain : ClusterChain fs V' first new :=
        (hg.chain first hfirst).congr fun x _ => by rw [View.next, View.next, hfat]
      have hfile : (DirectoryEntry.create name first size 0x20#8).isDirectory = false := by
        rw [DirectoryEntry.isDirectory, DirectoryEntry.attr_create hname.length]
        rfl
      refine .file hfile ((hstored.congr hdata).contents hgeo ?_ ?_ hlen.ge)
      · rwa [DirectoryEntry.firstCluster_create hname.length hlt]
      · rw [DirectoryEntry.fileSize_create hname.length, Nat.mod_eq_of_lt h32]

/-- `CreateDirectory` puts a directory, when there is room for it. -/
theorem createDirectory_atomic
    (hname : FatCall.NewName fs (fs.view dev.store) (fs.directoryOf parentCluster) name)
    (hdot : ¬DotName name) :
    Atomic fs dev (fs.createDirectory dev name parentCluster).2 t
      (t.put p name (some .directory))
      (¬(FatCall.createDirectory name parentCluster).Incomplete fs dev) := by
  rw [FatCall.Incomplete, not_or, not_not]
  rcases @createDirectory_cases fs dev name parentCluster hgeo with
    ⟨heq, hfull⟩ | ⟨c, dev₁, hg, hadv, hdata, heq⟩
  · rw [heq]
    exact ⟨fun hroom => absurd hfull hroom.1, fun _ => ht, Logged.Through.refl (Or.inl ht)⟩
  · have hlt := hg.lt (show c ∈ [] ++ [c] by simp)
    have hnotfull : ¬DiskFull (fs.view dev.store) := fun hfull => by
      have hle := hg.length_le_freeClusters
      rw [diskFull_iff.mp hfull] at hle
      exact absurd hle (Nat.not_succ_le_zero 0)
    have hentry := atomic_addEntry hgeo h ht hp (n := .directory) hg hadv hname hdot
      (show (0x10#8 : Byte) ≠ 0x0F#8 by decide) rfl (fun _ => dotEntries_empty hdata)
        0 fun V' _ _ => ?_
    · rw [heq]
      exact ⟨fun hroom => hentry.all hroom.2,
        fun hroom => hentry.nothing fun hslot => hroom ⟨hnotfull, hslot⟩, hentry.cut⟩
    · refine .directory (DirectoryEntry.isDirectory_create hname.length c 0) ?_
        (DirectoryEntry.fileSize_create hname.length)
      rw [DirectoryEntry.firstCluster_create hname.length hlt.2.2.2]
      omega

end AddEntry

end Entries

section Grow

variable {fs : FAT32Driver} {dev : BlockDevice} {content data buf : Buffer}
  {c l n size remaining offset prev : Nat} {cs init new : List Nat}

/-- More clusters than a file needs. -/
theorem Stored.append {V : View} (h : Stored fs V content size cs) (hgeo : Geometry fs)
    (hlen : fs.clustersFor size ≤ cs.length) : Stored fs V content size (cs ++ new) := by
  intro j y hj k hk hlt
  have hjl : j < cs.length := by
    have hdiv := (div_lt_clustersFor hgeo hlt).trans_le hlen
    rwa [Nat.add_comm, Nat.add_mul_div_right _ _ (clusterBytes_pos hgeo), Nat.div_eq_of_lt hk,
      Nat.zero_add] at hdiv
  rw [List.getElem?_append_left hjl] at hj
  exact h j y hj k hk hlt

/-- A cluster is written sector by sector, and what it has of the contents is written again. -/
theorem Stored.writeCluster (h : Stored fs (fs.view dev.store) content size cs)
    (hgeo : Geometry fs) (h2 : 2 ≤ c) (h32 : c < 2 ^ 32)
    (hbuf : ∀ j, cs[j]? = some c → ∀ k < fs.clusterBytes, j * fs.clusterBytes + k < size →
      buf k = content (j * fs.clusterBytes + k)) (hn : n ≤ fs.secPerClus) :
    Passes fs (fun V => Stored fs V content size cs) dev
      (BlockDevice.writeSectors dev (fs.clusterToLBA c) buf n) := by
  induction n with
  | zero => exact Logged.Through.refl h
  | succ n ih =>
    have hpast := ih (by omega)
    rw [BlockDevice.writeSectors]
    refine hpast.write ?_
    rw [view_write_data hgeo h2 h32 (by omega)]
    intro j y hj k hk hlt
    by_cases hy : y = c
    · subst hy
      rw [View.setData_data_self]
      split
      · next hkn =>
        have hsector : n * 512 + k % 512 = k := by omega
        rw [hsector]
        exact hbuf j hj k hk hlt
      · exact hpast.last j y hj k hk hlt
    · rw [View.setData_data_of_ne _ hy]
      exact hpast.last j y hj k hk hlt

/-- The loop of `AppendFile` writes to clusters that were free. -/
theorem Stored.appendLoop (hgeo : Geometry fs) (data : Buffer)
    (h : Stored fs (fs.view dev.store) content size cs)
    (hused : ∀ x ∈ cs, (fs.view dev.store).fat x ≠ 0) (hprev : prev < fs.fatSz32 * 128)
    (hloop : fs.appendLoop data n dev remaining offset prev = some (last, dev')) :
    Passes fs (fun V => Stored fs V content size cs) dev dev' ∧ last < fs.fatSz32 * 128 := by
  have hpos := hgeo.fatSz32_pos
  induction n generalizing dev remaining offset prev with
  | zero => cases hloop
  | succ n ih =>
    rw [FAT32Driver.appendLoop] at hloop
    split at hloop
    · cases hloop
      exact ⟨Logged.Through.refl h, hprev⟩
    · rcases allocateCluster_view hgeo dev with ⟨heq, -⟩ |
        ⟨c, dev₁, heq, h2, h128, h0, hview, hpass⟩
      · rw [heq] at hloop
        cases hloop
        exact ⟨Logged.Through.refl h, hprev⟩
      · rw [heq] at hloop
        dsimp only at hloop
        rw [if_neg (by omega : c ≠ 0)] at hloop
        have hfresh : c ∉ cs := fun hc => hused c hc h0
        obtain ⟨hlink, hpass'⟩ := @linkCluster_view fs (fun V => Stored fs V content size cs)
          prev hgeo
          dev₁ hprev c
        rw [hview] at hlink hpass'
        have h₁ : Stored fs ((fs.view dev.store).setFat c 0x0FFFFFFF) content size cs := h
        have h₂ : Stored fs (fs.view (fs.linkCluster dev₁ prev c).store) content size cs := by
          rw [hlink]
          exact h
        have hwrite (buf : Buffer) : Passes fs (fun V => Stored fs V content size cs) _
            (BlockDevice.writeSectors (fs.linkCluster dev₁ prev c) (fs.clusterToLBA c) buf
              fs.secPerClus) :=
          h₂.writeCluster hgeo h2 (by omega)
            (fun j hj => absurd (List.mem_of_getElem? hj) hfresh) le_rfl
        have hnext (buf : Buffer) (x : Nat) (hx : x ∈ cs) : (fs.view (BlockDevice.writeSectors
            (fs.linkCluster dev₁ prev c) (fs.clusterToLBA c) buf fs.secPerClus).store).fat x ≠
              0 := by
          rw [(@writeCluster_view fs (fun _ => True) c hgeo _ h2 (by omega) buf).1,
            View.setData_fat,
            hlink]
          by_cases hxp : x = prev
          · rw [hxp, View.setFat_fat_self]
            omega
          · rw [View.setFat_fat_of_ne _ hxp,
              View.setFat_fat_of_ne _ (by rintro rfl; exact hfresh hx)]
            exact hused x hx
        have hc : c < fs.fatSz32 * 128 := by omega
        obtain ⟨hrest, hlast⟩ := ih (hwrite _).last (hnext _) hc hloop
        exact ⟨(hpass (fun V => Stored fs V content size cs) h h₁).trans
          ((hpass' h₁ h).trans ((hwrite _).trans hrest)), hlast⟩

/-- At no moment does `AppendFile` change the bytes that the file has. -/
theorem Stored.appendData (hgeo : Geometry fs) (data : Buffer) (size : Nat) {oldSize : Nat}
    (h : Stored fs (fs.view dev.store) content oldSize (init ++ [l])) (hold : 0 < oldSize)
    (hlen : (init ++ [l]).length = fs.clustersFor oldSize) (hfresh : l ∉ init)
    (hused : ∀ x ∈ init ++ [l], (fs.view dev.store).fat x ≠ 0) (h2 : 2 ≤ l)
    (hl : l < fs.fatSz32 * 128) (h32 : l < 2 ^ 32) :
    Passes fs (fun V => Stored fs V content oldSize (init ++ [l])) dev
      (fs.appendData dev data size oldSize l) := by
  have hclose {dev₁ : BlockDevice} {r : Nat × BlockDevice}
      (hpast : Passes fs (fun V => Stored fs V content oldSize (init ++ [l])) dev₁ r.2)
      (hr : r.1 < fs.fatSz32 * 128) : Passes fs (fun V => Stored fs V content oldSize (init ++ [l]))
        dev₁ (fs.linkCluster r.2 r.1 0x0FFFFFFF) := by
    obtain ⟨-, hpass⟩ := @linkCluster_view fs (fun V => Stored fs V content oldSize (init ++ [l])) _
      hgeo r.2 hr 0x0FFFFFFF
    exact hpast.trans (hpass hpast.last hpast.last)
  have hfill (len : Nat) : Passes fs (fun V => Stored fs V content oldSize (init ++ [l])) dev
      (BlockDevice.writeSectors dev (fs.clusterToLBA l) (splice
        (BlockDevice.read dev (fs.clusterToLBA l)) (fs.usedInLast oldSize) (slice data 0 len))
        fs.secPerClus) := by
    refine h.writeCluster hgeo h2 h32 (fun j hj k hk hlt => ?_) le_rfl
    -- Only the bytes behind those of the file are new.
    have hlast : j = init.length := by
      have hjl := (List.getElem?_eq_some_iff.mp hj).1
      rw [List.length_append, List.length_singleton] at hjl
      by_contra hne
      rw [List.getElem?_append_left (by omega)] at hj
      exact hfresh (List.mem_of_getElem? hj)
    have hroom := add_roomInLast hgeo hold
    have hmod := Nat.mod_lt oldSize (clusterBytes_pos hgeo)
    have hused : fs.usedInLast oldSize ≤ fs.clusterBytes := by
      rw [usedInLast]
      split <;> omega
    rw [← hlen, List.length_append, List.length_singleton, Nat.add_mul, Nat.one_mul, roomInLast,
      if_neg hold.ne'] at hroom
    rw [splice_of_lt (by rw [hlast] at hlt; omega), read_cluster dev h2 h32 hk]
    exact h j l hj k hk hlt
  have hkept (dev₁ dev₂ : BlockDevice) (hpast : Passes fs
      (fun V => Stored fs V content oldSize (init ++ [l])) dev dev₁)
      (hused : ∀ x ∈ init ++ [l], (fs.view dev₁.store).fat x ≠ 0) (n offset : Nat)
      (heq : (fs.appendLoop data n dev₁ (size - offset) offset l).map
        (fun last => fs.linkCluster last.2 last.1 0x0FFFFFFF) = some dev₂) :
      Passes fs (fun V => Stored fs V content oldSize (init ++ [l])) dev dev₂ := by
    obtain ⟨r, hloop, rfl⟩ := Option.map_eq_some_iff.mp heq
    obtain ⟨hpass, hlast⟩ := Stored.appendLoop hgeo data hpast.last hused hl hloop
    exact hclose (hpast.trans hpass) hlast
  rw [FAT32Driver.appendData]
  cases hdata : fs.appendDataWithin (size + 1) dev data size oldSize l with
  | none => exact Logged.Through.refl h
  | some dev₂ =>
    rw [appendDataWithin] at hdata
    simp only [if_neg hold.ne'] at hdata
    refine hkept _ dev₂ ?_ (fun x hx => ?_) _ _ hdata
    · split
      · exact hfill _
      · exact Logged.Through.refl h
    · split
      · rw [(@writeCluster_view fs (fun _ => True) l hgeo dev h2 h32 _).1, View.setData_fat]
        exact hused x hx
      · exact hused x hx

end Grow

/-! ## Calls for a file -/

section Files

variable {fs : FAT32Driver} {dev : BlockDevice} {path : List Byte} {data : Buffer}
  {size parentCluster : Nat} {ds : List Nat} {p : List (List Byte)} {t : VolumeTree} {s : Slot}

/-- The entry of a directory that a name is compared with. -/
theorem entryAt_of_find {V : View} (hp : DirectoryAt fs V p d) (hc : ClusterChain fs V d ds)
    (hfind : V.find path (fs.slots ds) = some s) :
    EntryAt fs V p s ∧ (V.entry s).name = convertName path := by
  have hname := name_of_find hfind
  exact ⟨⟨d, ds, hp, hc, mem_of_find hfind, isDot_of_isNameEqual hname⟩, beq_iff_eq.mp hname⟩

/-- The entry is the only one under its name. -/
theorem EntryAt.slot_iff {V : View} {u : Slot} {x : List Byte} (h : EntryAt fs V p s)
    (hnames : NamesUnique fs V) (hx : (V.entry s).name = x) (hu : EntryAt fs V p u) :
    u = s ↔ (V.entry u).name = x := by
  constructor
  · rintro rfl
    exact hx
  · exact fun hux => hu.unique hnames h (hux.trans hx.symm)

variable (hgeo : Geometry fs) (ht : Represents fs (fs.view dev.store) t)
  (hp : DirectoryAt fs (fs.view dev.store) p (fs.directoryOf parentCluster))
include hgeo ht hp

/-- `DeleteFile` takes the file away. -/
theorem deleteFile_atomic (h : NamedVolume fs (fs.view dev.store))
    (hs : (FatCall.deleteFile path parentCluster).target fs dev = some s)
    (hfile : ((fs.view dev.store).entry s).isDirectory = false) :
    ∃ dev', fs.deleteFile dev path parentCluster = some (true, dev') ∧
      Represents fs (fs.view dev'.store) (t.put p (convertName path) none) ∧
      (¬(FatCall.deleteFile path parentCluster).FreesClusters fs dev →
        Atomic fs dev dev' t (t.put p (convertName path) none) True) := by
  have hd := hp.isDirectory
  have hc := h.directory_chain hd
  have hfind := hs
  rw [FatCall.target, searchLoop_eq hc (h.sound.ended _ _ hd hc) (ClusterChain.length_lt hc),
    Option.join_some] at hfind
  obtain ⟨hentry, hx⟩ := entryAt_of_find hp hc hfind
  obtain ⟨ds, cs, dev', heq, -, hdel⟩ := deleteFile_deleted hgeo h.sound hd hs hfile
  obtain ⟨pre, post, hchange⟩ := hdel.change
  have howner := owner_delete (fs.view dev.store) s
  have hslot (u : Slot) (hu : EntryAt fs (fs.view dev.store) p u) :=
    hentry.slot_iff h.unique hx hu
  have hmarked : Represents fs ((fs.view dev.store).setSlot s ((fs.view dev.store).entry s).delete)
      (t.put p (convertName path) none) := by
    exact hchange.represents_put h.sound hp (ht.but _) (hchange.isLeaf ht hslot) hgeo hslot
      (Or.inl ⟨howner, rfl⟩)
  obtain ⟨-, hsame, hkept⟩ := hdel.removed.frame h.sound
  have hend := hmarked.frame hgeo (hchange.sound h.sound) hsame hkept
  refine ⟨dev', heq, hend, fun hno => ⟨fun _ => hend, fun hn => absurd trivial hn, ?_⟩⟩
  rcases @deleteFile_cases fs dev path _ parentCluster _ hgeo h.sound rfl hd hc with
    ⟨-, heq'⟩ | ⟨u, cs', dev₁, hfind', -, hfree, -, heq'⟩
  · rw [heq] at heq'
    cases heq'
  · rw [heq] at heq'
    cases heq'
    obtain rfl := Option.some.inj (hfind.symm.trans hfind')
    have h0 : ((fs.view dev.store).entry s).firstCluster = 0 := by
      by_contra h0
      exact hno ⟨s, hs, h0⟩
    rw [if_pos h0] at hfree
    obtain rfl := Option.some.inj hfree
    obtain ⟨hmem, hi⟩ := mem_slots.mp (live_subset _ _ s (mem_of_find hfind))
    obtain ⟨h2, -, -, h32⟩ := ClusterChain.lt hc hmem
    obtain ⟨-, hpass⟩ := @writeSlot_view fs
      (fun V => Represents fs V t ∨ Represents fs V (t.put p (convertName path) none)) _ hgeo dev s
      h2 h32 hi _ (DirectoryEntry.length_delete (length_entry (fs.view dev.store) s))
      fun k hk => read_cluster dev h2 h32 hk
    exact hpass (Or.inl ht) (Or.inr hmarked)

/-- With the entry that `AppendFile` writes the tree has what the clusters then have. -/
theorem Appended.represents {dev₁ : BlockDevice} {cs new : List Nat} {first : Nat} {b : List Byte}
    (happ : Appended fs dev dev₁ s cs new first) (hv : SoundVolume fs (fs.view dev.store))
    (hnames : NamesUnique fs (fs.view dev.store))
    (hc : ClusterChain fs (fs.view dev.store) (fs.directoryOf parentCluster) ds)
    (hfind : (fs.view dev.store).find path (fs.slots ds) = some s)
    (hfile : ((fs.view dev.store).entry s).isDirectory = false)
    (hleaf : IsLeaf (t.node (p ++ [convertName path])))
    (hb : Contents fs (fs.view (updated fs dev dev₁ s size first).store)
      (((fs.view dev.store).entry s).appended size first) b) :
    Represents fs (fs.view (updated fs dev dev₁ s size first).store)
      (t.put p (convertName path) (some (.file b))) := by
  obtain ⟨hentry, hx⟩ := entryAt_of_find hp hc hfind
  have hlist := hentry.listed
  have hlive := mem_of_find hfind
  obtain ⟨pre, post, hslots, hpre⟩ := split_of_mem_live hlive
  obtain ⟨hv₁, hsame, hkept⟩ := happ.frame hv hlist hfile
  have hchange := happ.change hv hlist hfile size hp.isDirectory hc hslots hpre
  obtain ⟨hmem, hi⟩ := mem_slots.mp (live_subset _ _ s hlive)
  obtain ⟨h2, -, -, h32⟩ := ClusterChain.lt hc hmem
  obtain ⟨hlen, hname, -, hattr, -⟩ :=
    appended_keeps (length_entry (fs.view dev.store) s) size first
  obtain ⟨hview, -⟩ := @writeSlot_view fs (fun _ => True) _ hgeo dev₁ s h2 h32 hi _ hlen
    fun k hk => read_cluster dev₁ h2 h32 hk
  rw [updated, hview] at hb ⊢
  have hset := (entry_setSlot (fs.view dev₁.store) s hlen).1
  refine hchange.represents_put hv₁ ((hsame.directoryAt_iff hv).mpr hp)
    ((ht.but _).frame hgeo hv hsame hkept fun u q hu hq => ?_) hleaf hgeo (fun u hu => ?_)
    (Or.inr ⟨.file b, ?_⟩)
  · obtain rfl := Option.some.inj hu
    rw [hq.path_unique hv hentry, hx]
  · rw [hsame.entryAt_iff hv] at hu
    rw [hsame.listed_entry hu.listed]
    exact hentry.slot_iff hnames hx hu
  · rw [hset, appended_owner (length_entry _ s)]
    refine ⟨hlist.owner, hname.trans hx, .file ?_ hb, rfl⟩
    rw [DirectoryEntry.isDirectory, hattr]
    exact hfile

/-- `AppendFile` puts the data behind what the file has. -/
theorem appendFile_atomic {name : CString} (hnamed : NamedVolume fs (fs.view dev.store))
    (h : WellFormed fs dev.store)
    (hs : fs.findSlot dev name.chars parentCluster = some s)
    (hfile : ((fs.view dev.store).entry s).isDirectory = false)
    (hold : 0 < ((fs.view dev.store).entry s).fileSize)
    (h32 : ((fs.view dev.store).entry s).fileSize + size < 2 ^ 32)
    (hroom : fs.clustersFor (size - fs.roomInLast ((fs.view dev.store).entry s).fileSize) ≤
      (fs.view dev.store).freeClusters.length) :
    ∃ dev', fs.appendFile dev name data size parentCluster = some dev' ∧
      Atomic fs dev dev' t (t.modify p (convertName name.chars) (· ++ slice data 0 size)) True := by
  have hd := hp.isDirectory
  have hc := hnamed.directory_chain hd
  have hfind := hs
  rw [h.findSlot_eq hd hc] at hfind
  obtain ⟨hentry, hx⟩ := entryAt_of_find hp hc hfind
  have hlist := hentry.listed
  have h0 := h.sound.sized s hlist hfile hold
  obtain ⟨cs, hcs⟩ := h.sound.chains (.slot s) _ ⟨hlist, rfl, h0⟩
  have hlen := h.exact s cs hlist hfile hold hcs
  obtain ⟨init, last, rfl, -⟩ := hcs.exists_last
  obtain ⟨content, hstored⟩ : ∃ content, Stored fs (fs.view dev.store) content
    ((fs.view dev.store).entry s).fileSize (init ++ [last]) := ⟨_, stored_chainBuffer _ _ _⟩
  have hbytes := hstored.contents hgeo hcs rfl hlen.ge
  have hnode : t.node (p ++ [convertName name.chars]) =
      some (.file (slice content 0 ((fs.view dev.store).entry s).fileSize)) :=
    (ht.shows _ _).mp (shows_concat.mpr ⟨s, hentry, hx, .file hfile hbytes⟩)
  have hleaf : IsLeaf (t.node (p ++ [convertName name.chars])) := by
    rw [hnode]
    trivial
  rw [Tree.modify_file _ hnode]
  by_cases hsize : size = 0
  · rw [hsize, show slice data 0 0 = [] from rfl, List.append_nil, ← hnode, Tree.put_node]
    · have heq : fs.appendFile dev name data 0 parentCluster = some dev := if_pos rfl
      exact ⟨dev, heq, fun _ => ht, fun _ => ht, Logged.Through.refl (Or.inl ht)⟩
    · rw [ht.directory_iff.mpr ⟨_, hp⟩]
      exact id
    · exact hleaf
  have hfind' : (fs.view dev.store).find name.chars
      (fs.slots (List.take 10001 [fs.directoryOf parentCluster])) = some s := hfind
  obtain ⟨more, happ, hcount, -, hfilled, heq⟩ := @appendFile_more fs dev data _ size parentCluster
    _ s name init last hgeo h.sound rfl hd hc hsize hfind' hfile hcs
  have hfound := happ.foundAgain hgeo h hd hs hfile size
  obtain ⟨hlength, -, -, -, hfilesize⟩ := appended_keeps (length_entry (fs.view dev.store) s) size
    ((fs.view dev.store).entry s).firstCluster
  -- While clusters are taken and written the file has what it has.
  have hpast : Passes fs (fun V => Represents fs V t) dev
      (fs.appendData dev data size ((fs.view dev.store).entry s).fileSize last) := by
    obtain ⟨h2, hl, -, hl32⟩ := ClusterChain.lt hcs (show last ∈ init ++ [last] by simp)
    have hfresh : last ∉ init := fun hmem =>
      (List.nodup_append.mp hcs.nodup).2.2 last hmem last (List.mem_singleton_self last) rfl
    have hkeep := hstored.appendData hgeo data size hold hlen hfresh
      (fun x hx => fat_ne_zero hcs hx) h2 hl hl32
    refine (happ.advance.passes.and hkeep).mono fun _ hmid => ?_
    obtain ⟨-, hsame, hkept⟩ := happ.file.frame h.sound hlist hfile hmid.1
    obtain ⟨new, hchain, -⟩ := hmid.1.chain _ hcs.head?_eq
    refine ht.frame_file hgeo h.sound hsame hkept hfile hbytes
      ((hmid.2.append hgeo hlen.ge).contents hgeo hchain rfl ?_)
    rw [List.length_append]
    omega
  generalize fs.appendData dev data size ((fs.view dev.store).entry s).fileSize last = dev₁ at *
  -- The entry tells of all of it in one write.
  have hend : Represents fs (fs.view (updated fs dev dev₁ s size
      ((fs.view dev.store).entry s).firstCluster).store)
      (t.put p (convertName name.chars) (some (.file
        (slice content 0 ((fs.view dev.store).entry s).fileSize ++ slice data 0 size)))) := by
    refine happ.represents hgeo ht hp h.sound hnamed.unique hc hfind hfile hleaf ?_
    rw [← slice_joined]
    refine ((hfilled hold hlen _ hstored).congr hfound.data).contents hgeo ?_ ?_ ?_
    · rw [hfound.firstCluster]
      exact hfound.chain
    · rw [hfilesize, Nat.mod_eq_of_lt h32]
    · have hall := hcount.resolve_right fun hless => by
        have hle := happ.grown.freeClusters_le (fun x hx => fat_ne_zero hcs hx) hless.2
        omega
      rw [List.length_append, hlen, hall, clustersFor_add hgeo hold]
  obtain ⟨hmem, hi⟩ := mem_slots.mp (live_subset _ _ s (mem_of_find hfind))
  obtain ⟨h2, -, -, hlt⟩ := ClusterChain.lt hc hmem
  obtain ⟨hview, hpass⟩ := @writeSlot_view fs (fun V => Represents fs V t ∨ Represents fs V (t.put p
    (convertName name.chars) (some (.file (slice content 0 ((fs.view dev.store).entry s).fileSize ++
      slice data 0 size))))) _ hgeo dev₁ s h2 hlt hi _ hlength
    fun k hk => read_cluster dev₁ h2 hlt hk
  refine ⟨_, heq, fun _ => hend, fun hn => absurd trivial hn,
    (hpast.mono fun _ hpast => Or.inl hpast).trans (hpass (Or.inl hpast.last) (Or.inr ?_))⟩
  rw [← hview]
  exact hend

end Files

end Sylphia
