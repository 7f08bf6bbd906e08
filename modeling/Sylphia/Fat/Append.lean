import Sylphia.Fat.ReadBack

/-!
# What is appended is read

`AppendFile` on a file that has data puts the new data behind it. On a file that has none it
skips the step that fills the last cluster, and the data starts in the second cluster.
-/

namespace Sylphia

open Bytes WriteLog Chain FAT32Driver

section Written

variable {fs : FAT32Driver} {dev dev₁ : BlockDevice} {path : List Byte}
  {d first size parentCluster : Nat} {ds cs new : List Nat} {s : Slot}

/-- The device after the last pass of `AppendFile`. -/
def updated (fs : FAT32Driver) (dev dev₁ : BlockDevice) (s : Slot) (size first : Nat) :
    BlockDevice :=
  fs.writeSlot dev₁ (BlockDevice.read dev₁ (fs.clusterToLBA s.cluster)) s
    (((fs.view dev.store).entry s).appended size first)

/-- The file is found where it was, with all of its clusters and the data they have. -/
structure FoundAgain (fs : FAT32Driver) (dev₁ dev' : BlockDevice) (path : List Byte)
    (parentCluster : Nat) (s : Slot) (e : DirectoryEntry) (first : Nat) (cs : List Nat) : Prop where
  find : fs.findSlot dev' path parentCluster = some s
  slot : ∃ d ds, ClusterChain fs (fs.view dev'.store) d ds ∧ s ∈ fs.slots ds
  entry : (fs.view dev'.store).entry s = e
  firstCluster : e.firstCluster = first
  chain : ClusterChain fs (fs.view dev'.store) first cs
  data : ∀ c ∈ cs, (fs.view dev'.store).data c = (fs.view dev₁.store).data c

theorem Appended.foundAgain (happ : Appended fs dev dev₁ s cs new first) (hgeo : Geometry fs)
    (h : WellFormed fs dev.store)
    (hd : IsDirectory fs (fs.view dev.store) (fs.directoryOf parentCluster))
    (hfind : fs.findSlot dev path parentCluster = some s)
    (hfile : ((fs.view dev.store).entry s).isDirectory = false) (size : Nat) :
    FoundAgain fs dev₁ (updated fs dev dev₁ s size first) path parentCluster s
      (((fs.view dev.store).entry s).appended size first) first (cs ++ new) := by
  obtain ⟨ds, hc⟩ := h.sound.directory_chain hd
  rw [h.findSlot_eq hd hc] at hfind
  have hlive := mem_of_find hfind
  have hlist : Listed fs (fs.view dev.store) s :=
    ⟨_, ds, hd, hc, hlive, isDot_of_isNameEqual (name_of_find hfind)⟩
  obtain ⟨pre, post, hslots, hpre⟩ := split_of_mem_live hlive
  obtain ⟨hv₁, hsame, -⟩ := happ.frame h.sound hlist hfile
  have hchange := happ.change h.sound hlist hfile size hd hc hslots hpre
  have hmem := live_subset _ _ s hlive
  obtain ⟨h2, -, -, hlt⟩ := ClusterChain.lt hc (mem_slots.mp hmem).1
  obtain ⟨hlen, hname, hbyte, hattr, -⟩ :=
    appended_keeps (length_entry (fs.view dev.store) s) size first
  obtain ⟨hview, -⟩ := @writeSlot_view fs (fun _ => True) _ hgeo dev₁ s h2 hlt
    (mem_slots.mp hmem).2 _ hlen fun k hk => read_cluster dev₁ h2 hlt hk
  rw [← updated] at hview
  have hset := (entry_setSlot (fs.view dev₁.store) s hlen).1
  have hfirst := happ.firstCluster h.sound hlist hfile size
  have hentry := hsame.entry hd hc hmem
  have hds := hchange.chain_iff.mpr (hsame _ ds hd hc).1
  rw [← hview] at hset hds hchange
  have howner : (((fs.view dev.store).entry s).appended size first).owner = true := by
    rw [appended_owner (length_entry _ s)]
    exact hlist.owner
  have hlive' : (((fs.view dev.store).entry s).appended size first).isLive = true := by
    rw [DirectoryEntry.owner, Bool.and_eq_true] at howner
    exact howner.1
  refine ⟨?_, ⟨_, ds, hds, hmem⟩, hset, hfirst,
    hchange.chain_iff.mpr (happ.grown.chain first happ.head), fun c hcs => ?_⟩
  · rw [← findSlot_directoryOf, findSlot_eq hds, h.take_chain hd hc, hchange.find_kept hv₁,
      find_congr path fun t ht => hsame.entry hd hc ht, hfind]
    · rw [hentry]
      exact isLive_of_mem_live hlive
    · rw [hset]
      exact hlive'
    · rw [hset, hname, hentry]
  · have h0 : first ≠ 0 := by
      have := (happ.grown.lt (List.mem_of_head? happ.head)).1
      omega
    obtain ⟨es, hes, hapart, -⟩ := hchange.owns (by rw [hset]; exact howner)
      (by rw [hset, hfirst]; exact h0)
    rw [hset, hfirst] at hes
    obtain rfl := hes.unique (happ.grown.chain first happ.head)
    refine hchange.otherData c ?_
    rintro rfl
    exact hchange.new_apart (by rw [hset]; exact howner) hapart hcs

/-- What is in the clusters is read. -/
theorem FoundAgain.readFile {dev' : BlockDevice} {e : DirectoryEntry} {data : Buffer} {n : Nat}
    (hfound : FoundAgain fs dev₁ dev' path parentCluster s e first cs) (hgeo : Geometry fs)
    (hpath : OneSegment path) (hsize : e.fileSize = size) (hn : size ≤ n)
    (hlen : fs.clustersFor size ≤ cs.length)
    (hstored : Stored fs (fs.view dev₁.store) data size cs) :
    fs.readFile dev' path n parentCluster = (size, slice data 0 size) := by
  obtain ⟨d, ds, hds, hmem⟩ := hfound.slot
  refine readFile_found hgeo hpath hfound.find hds hmem ?_ hn ?_ hlen
    (hstored.congr hfound.data)
  · rw [hfound.entry, hsize]
  · rw [hfound.entry, hfound.firstCluster]
    exact hfound.chain

end Written

section More

variable {fs : FAT32Driver} {dev : BlockDevice} {name : CString} {data : Buffer}
  {size parentCluster : Nat} {s : Slot}

/-- The bytes of the clusters, one after the other. -/
def chainBuffer (fs : FAT32Driver) (V : View) (cs : List Nat) : Buffer := fun k =>
  V.data (cs.getD (k / fs.clusterBytes) 0) (k % fs.clusterBytes)

theorem stored_chainBuffer (V : View) (size : Nat) (cs : List Nat) :
    Stored fs V (chainBuffer fs V cs) size cs := by
  intro j c hj k hk _
  have hdiv : (j * fs.clusterBytes + k) / fs.clusterBytes = j := by
    rw [Nat.mul_comm, Nat.mul_add_div (by omega), Nat.div_eq_of_lt hk, Nat.add_zero]
  have hmod : (j * fs.clusterBytes + k) % fs.clusterBytes = k := by
    rw [Nat.mul_comm, Nat.mul_add_mod, Nat.mod_eq_of_lt hk]
  rw [chainBuffer, hdiv, hmod, List.getD_eq_getElem?_getD, hj, Option.getD_some]

/-- Data that is appended to a file that is not empty is read behind what the file had, and the
file keeps its place. -/
theorem append_read_back (hgeo : Geometry fs) (h : WellFormed fs dev.store)
    (hd : IsDirectory fs (fs.view dev.store) (fs.directoryOf parentCluster))
    (hpath : OneSegment name.chars) (hfind : fs.findSlot dev name.chars parentCluster = some s)
    (hfile : ((fs.view dev.store).entry s).isDirectory = false)
    (hold : 0 < ((fs.view dev.store).entry s).fileSize) (hsize : 0 < size)
    (h32 : ((fs.view dev.store).entry s).fileSize + size < 2 ^ 32)
    (hroom : fs.clustersFor (((fs.view dev.store).entry s).fileSize + size) ≤
      fs.clustersFor ((fs.view dev.store).entry s).fileSize +
        (fs.view dev.store).freeClusters.length) :
    ∃ dev' content, fs.appendFile dev name data size parentCluster = some dev' ∧
      (∀ n, ((fs.view dev.store).entry s).fileSize ≤ n →
        fs.readFile dev name.chars n parentCluster =
          (((fs.view dev.store).entry s).fileSize, content)) ∧
      content.length = ((fs.view dev.store).entry s).fileSize ∧
      (∀ n, ((fs.view dev.store).entry s).fileSize + size ≤ n →
        fs.readFile dev' name.chars n parentCluster =
          (((fs.view dev.store).entry s).fileSize + size, content ++ slice data 0 size)) ∧
      fs.findSlot dev' name.chars parentCluster = some s ∧
      ((fs.view dev'.store).entry s).firstCluster = ((fs.view dev.store).entry s).firstCluster := by
  obtain ⟨ds, hc⟩ := h.sound.directory_chain hd
  have hfind' : (fs.view dev.store).find name.chars (fs.slots (ds.take 10001)) = some s := by
    rw [h.take_chain hd hc, ← h.findSlot_eq hd hc, hfind]
  obtain ⟨hlist, hlive⟩ := listed_of_find hd hc hfind'
  have h0 := h.sound.sized s hlist hfile hold
  obtain ⟨cs, hcs⟩ := h.sound.chains (.slot s) _ ⟨hlist, rfl, h0⟩
  have hlen := h.exact s cs hlist hfile hold hcs
  obtain ⟨init, last, rfl, -⟩ := hcs.exists_last
  obtain ⟨more, happ, hcount, -, hfilled, heq⟩ := @appendFile_more fs dev data _ size parentCluster
    ds s name init last hgeo h.sound rfl hd hc hsize.ne' hfind' hfile hcs
  have hfound := happ.foundAgain hgeo h hd hfind hfile size
  have hstored := hfilled hold hlen _ (stored_chainBuffer _ _ _)
  rw [clustersFor_add hgeo hold, Nat.add_le_add_iff_left] at hroom
  have hmore : more.length =
      fs.clustersFor (size - fs.roomInLast ((fs.view dev.store).entry s).fileSize) := by
    refine hcount.resolve_right fun hless => ?_
    have hle := happ.grown.freeClusters_le (fun x hx => fat_ne_zero hcs hx) hless.2
    omega
  refine ⟨_, slice (chainBuffer fs (fs.view dev.store) (init ++ [last])) 0
    ((fs.view dev.store).entry s).fileSize, heq, fun n hn => ?_, length_slice .., fun n hn => ?_,
    hfound.find, ?_⟩
  · exact readFile_found hgeo hpath hfind hc (live_subset _ _ s hlive) rfl hn hcs hlen.ge
      (stored_chainBuffer _ _ _)
  · rw [← slice_joined]
    refine hfound.readFile hgeo hpath ?_ hn ?_ hstored
    · rw [(appended_keeps (length_entry _ s) size _).2.2.2.2, Nat.mod_eq_of_lt h32]
    · rw [List.length_append, hlen, hmore, clustersFor_add hgeo hold]
  · exact (congrArg DirectoryEntry.firstCluster hfound.entry).trans hfound.firstCluster

/-- 600 bytes are appended to the three that the file `A` has. -/
theorem append_read_back_small : ∃ dev',
    smallVolume.appendFile oneFileDisk ⟨[0x61#8], []⟩ (fun k => BitVec.ofNat 8 k) 600 0 =
    some dev' ∧
      smallVolume.readFile dev' [0x61#8] 1000 0 =
        (603, [0x2A#8, 0x2A#8, 0x2A#8] ++ slice (fun k => BitVec.ofNat 8 k) 0 600) := by
  have heval : smallVolume.findSlot oneFileDisk [0x61#8] 0 = some ⟨2, 0⟩ ∧
      ((smallVolume.view oneFileDisk.store).entry ⟨2, 0⟩).isDirectory = false ∧
      ((smallVolume.view oneFileDisk.store).entry ⟨2, 0⟩).fileSize = 3 ∧
      smallVolume.clustersFor 603 ≤
        smallVolume.clustersFor 3 + (smallVolume.view oneFileDisk.store).freeClusters.length ∧
      smallVolume.readFile oneFileDisk [0x61#8] 3 0 = (3, [0x2A#8, 0x2A#8, 0x2A#8]) := by
    decide +kernel
  obtain ⟨hfind, hfile, hold, hroom, hread⟩ := heval
  obtain ⟨dev', content, heq, hbefore, -, hafter, -⟩ := @append_read_back smallVolume oneFileDisk
    ⟨[0x61#8], []⟩ (fun k => BitVec.ofNat 8 k) 600 0 ⟨2, 0⟩ smallVolume_geometry
    oneFileDisk_wellFormed .root ⟨by decide, by decide, by decide⟩ hfind hfile
      (by rw [hold]; decide)
    (by decide) (by rw [hold]; decide) (by rw [hold]; exact hroom)
  rw [hold] at hbefore hafter
  obtain rfl : [0x2A#8, 0x2A#8, 0x2A#8] = content :=
    (Prod.mk.inj (hread.symm.trans (hbefore 3 le_rfl))).2
  exact ⟨dev', heq, hafter 1000 (by decide)⟩

end More

/-! ## A file without data -/

/-- The first cluster that an empty file has after `AppendFile`: its own, or the first that is
free. -/
def firstAfter (V : View) (s : Slot) : Nat :=
  if (V.entry s).firstCluster = 0 then V.freeClusters.headD 0 else (V.entry s).firstCluster

/-- The number of clusters of an empty file. -/
def ownClusters (V : View) (s : Slot) : Nat := if (V.entry s).firstCluster = 0 then 0 else 1

/-- The file is read as the data, from as many clusters as the data needs. -/
def ReadsExactly (fs : FAT32Driver) (dev : BlockDevice) (name : List Byte) (data : Buffer)
    (size parentCluster : Nat) : Prop :=
  (∀ n, size ≤ n → fs.readFile dev name n parentCluster = (size, slice data 0 size)) ∧
    ∃ s cs, fs.findSlot dev name parentCluster = some s ∧
      ClusterChain fs (fs.view dev.store) ((fs.view dev.store).entry s).firstCluster cs ∧
      cs.length = fs.clustersFor size

/-- There is not one cluster more than the data needs, and the data is what it is when it is
moved by one cluster behind what the first cluster has. -/
def Coincides (fs : FAT32Driver) (V : View) (s : Slot) (data : Buffer) (size : Nat) : Prop :=
  ownClusters V s + V.freeClusters.length = fs.clustersFor size ∧
    ∀ k < size, data k =
      if k < fs.clusterBytes then V.data (firstAfter V s) k else data (k - fs.clusterBytes)

section Empty

variable {fs : FAT32Driver} {dev dev₁ dev₂ : BlockDevice} {name : CString} {path : List Byte}
  {data : Buffer} {first size parentCluster : Nat} {s : Slot} {cs new more : List Nat}

theorem Stored.mono {V : View} {n : Nat} (h : Stored fs V data n cs) (hn : size ≤ n) :
    Stored fs V data size cs :=
  fun j c hj k hk hlt => h j c hj k hk (by omega)

/-- The data is behind the first cluster, when the file was empty. -/
theorem Stores.behind_first {V V' : View} (h : Stores fs V V' data size 0 [first] cs) :
    Stored fs V' (joined (V.data first) fs.clusterBytes data) (fs.clusterBytes + size) cs := by
  have hbase : fs.clusterBytes = [first].length * fs.clusterBytes := (Nat.one_mul _).symm
  have hfirst : Stored fs V (joined (V.data first) fs.clusterBytes data) (fs.clusterBytes + size)
      [first] := by
    refine Stored.joined_of_full (fun j c hj k hk _ => ?_) hbase.symm
    rw [List.getElem?_singleton] at hj
    split at hj
    · next h0 =>
      rw [h0, ← Option.some.inj hj, Nat.zero_mul, Nat.zero_add]
    · cases hj
  have hall := h (joined (V.data first) fs.clusterBytes data) fs.clusterBytes (joined_add _ _ _)
    fun _ => (Nat.add_zero _).trans hbase
  rw [Nat.add_zero] at hall
  exact hall hfirst

/-- `AppendFile` on an empty file, once it has a first cluster. -/
theorem Appended.readsExactly_iff (happ : Appended fs dev dev₁ s cs new first) (hgeo : Geometry fs)
    (h : WellFormed fs dev.store)
    (hd : IsDirectory fs (fs.view dev.store) (fs.directoryOf parentCluster))
    (hpath : OneSegment path) (hfind : fs.findSlot dev path parentCluster = some s)
    (hfile : ((fs.view dev.store).entry s).isDirectory = false)
    (hzero : ((fs.view dev.store).entry s).fileSize = 0)
    (hused : ∀ x ∈ cs, (fs.view dev.store).fat x ≠ 0) (hall : cs ++ new = first :: more)
    (hcount : more.length = fs.clustersFor size ∨
      more.length < fs.clustersFor size ∧ DiskFull (fs.view dev₁.store))
    (hstored : Stored fs (fs.view dev₁.store)
      (joined ((fs.view dev.store).data first) fs.clusterBytes data) (fs.clusterBytes + size)
      (first :: more))
    (hroom : fs.clustersFor size ≤ cs.length + (fs.view dev.store).freeClusters.length)
    (hcs : cs.length ≤ 1) :
    ReadsExactly fs (updated fs dev dev₁ s size first) path data size parentCluster ↔
      cs.length + (fs.view dev.store).freeClusters.length = fs.clustersFor size ∧
        ∀ k < size, data k = if k < fs.clusterBytes then (fs.view dev.store).data first k
          else data (k - fs.clusterBytes) := by
  have hfound := happ.foundAgain hgeo h hd hfind hfile size
  have hlen : cs.length + new.length = more.length + 1 := by
    rw [← List.length_append, hall, List.length_cons]
  have hnew := happ.grown.length_le_freeClusters
  have hfull (hless : DiskFull (fs.view dev₁.store)) := happ.grown.freeClusters_le hused hless
  have h32 : size < 2 ^ 32 := by
    have hfree := length_freeClusters_le (fs.view dev.store)
    exact size_lt_of_clustersFor hgeo (by omega)
  have hread (n : Nat) (hn : size ≤ n) (henough : fs.clustersFor size ≤ (cs ++ new).length) :
      fs.readFile (updated fs dev dev₁ s size first) path n parentCluster =
        (size, slice (joined ((fs.view dev.store).data first) fs.clusterBytes data) 0 size) := by
    refine hfound.readFile hgeo hpath ?_ hn henough
      (hall ▸ hstored.mono (Nat.le_add_left _ _))
    rw [(appended_keeps (length_entry _ s) size _).2.2.2.2, hzero, Nat.zero_add,
      Nat.mod_eq_of_lt h32]
  have hpoint : slice (joined ((fs.view dev.store).data first) fs.clusterBytes data) 0 size =
      slice data 0 size ↔ ∀ k < size, data k = if k < fs.clusterBytes then
        (fs.view dev.store).data first k else data (k - fs.clusterBytes) := by
    rw [slice_eq_iff]
    exact forall₂_congr fun k _ => eq_comm
  constructor
  · rintro ⟨hbytes, t, es, ht, hes, heslen⟩
    obtain rfl := Option.some.inj (hfound.find.symm.trans ht)
    rw [hfound.entry, hfound.firstCluster] at hes
    obtain rfl := hes.unique hfound.chain
    rw [List.length_append] at heslen
    refine ⟨?_, hpoint.mp ?_⟩
    · rcases hcount with hcount | ⟨-, hless⟩
      · omega
      · have := hfull hless
        omega
    · have hsame := (hread size le_rfl (by rw [List.length_append]; omega)).symm.trans
        (hbytes size le_rfl)
      exact (Prod.mk.inj hsame).2
  · rintro ⟨hexact, hdata⟩
    have htotal : (cs ++ new).length = fs.clustersFor size := by
      rw [List.length_append]
      rcases hcount with hcount | ⟨-, hless⟩
      · omega
      · have := hfull hless
        omega
    refine ⟨fun n hn => ?_, s, _, hfound.find, ?_, htotal⟩
    · rw [hread n hn htotal.ge, hpoint.mpr hdata]
    · rw [hfound.entry, hfound.firstCluster]
      exact hfound.chain

/-- Data that is appended to an empty file is read back, from as many clusters as it needs, only
when the clusters are just enough and the data happens to be the same one cluster further on. -/
theorem append_empty_iff (hgeo : Geometry fs) (h : WellFormed fs dev.store)
    (hd : IsDirectory fs (fs.view dev.store) (fs.directoryOf parentCluster))
    (hpath : OneSegment name.chars) (hfind : fs.findSlot dev name.chars parentCluster = some s)
    (hfile : ((fs.view dev.store).entry s).isDirectory = false)
    (hzero : ((fs.view dev.store).entry s).fileSize = 0)
    (hchain : ((fs.view dev.store).entry s).firstCluster = 0 ∨
      ClusterChain fs (fs.view dev.store) ((fs.view dev.store).entry s).firstCluster
        [((fs.view dev.store).entry s).firstCluster])
    (hsize : 0 < size)
    (hroom : fs.clustersFor size ≤
      ownClusters (fs.view dev.store) s + (fs.view dev.store).freeClusters.length) :
    ∃ dev', fs.appendFile dev name data size parentCluster = some dev' ∧
      (ReadsExactly fs dev' name.chars data size parentCluster ↔
        Coincides fs (fs.view dev.store) s data size) := by
  obtain ⟨ds, hc⟩ := h.sound.directory_chain hd
  have hfind' : (fs.view dev.store).find name.chars (fs.slots (ds.take 10001)) = some s := by
    rw [h.take_chain hd hc, ← h.findSlot_eq hd hc, hfind]
  have hnoroom : size - fs.roomInLast ((fs.view dev.store).entry s).fileSize = size := by
    rw [hzero]
    exact Nat.sub_zero size
  rw [Coincides, ownClusters, firstAfter]
  rw [ownClusters] at hroom
  rcases hchain with h0 | hcs
  · rw [if_pos h0] at hroom ⊢
    rw [if_pos h0, ← allocateCluster_fst hgeo dev]
    rcases allocateCluster_view hgeo dev with ⟨-, hfull⟩ | ⟨c, dev₂, heq, h2, -⟩
    · rw [diskFull_iff.mp hfull, clustersFor_step (clusterBytes_pos hgeo) hsize] at hroom
      exact absurd hroom (by simp)
    · have hc0 : c ≠ 0 := by omega
      obtain ⟨more, happ, hcount, hstores, hres⟩ := @appendFile_first fs dev data c _ size
        parentCluster ds s name dev₂ hgeo h.sound rfl hd hc hsize.ne' hfind' hfile h0 heq hc0
      have hbehind := (hstores hzero).behind_first
      rw [data_allocateCluster hgeo heq hc0] at hbehind
      rw [hnoroom] at hcount
      rw [heq]
      exact ⟨_, hres, happ.readsExactly_iff hgeo h hd hpath hfind hfile hzero
        (fun x hx => by cases hx) rfl hcount hbehind hroom (Nat.zero_le 1)⟩
  · have h0 : ((fs.view dev.store).entry s).firstCluster ≠ 0 := by
      intro h0
      rw [h0] at hcs
      exact absurd hcs.valid_head.1 (by decide)
    rw [if_neg h0] at hroom ⊢
    rw [if_neg h0]
    obtain ⟨more, happ, hcount, hstores, -, hres⟩ := @appendFile_more fs dev data _ size
      parentCluster ds s name [] _ hgeo h.sound rfl hd hc hsize.ne' hfind' hfile hcs
    rw [hnoroom] at hcount
    exact ⟨_, hres, happ.readsExactly_iff hgeo h hd hpath hfind hfile hzero
      (fun x hx => fat_ne_zero hcs hx) rfl hcount (hstores hzero).behind_first hroom le_rfl⟩

/-- Zeros for all clusters that are free are appended to the empty file `A`. -/
theorem append_empty_zeros : ∃ dev',
    smallVolume.appendFile ⟨fullDisk, []⟩ ⟨[0x61#8], []⟩ (fun _ => 0) 64000 0 = some dev' ∧
      ReadsExactly smallVolume dev' [0x61#8] (fun _ => 0) 64000 0 := by
  have heval : smallVolume.findSlot ⟨fullDisk, []⟩ [0x61#8] 0 = some ⟨2, 0⟩ ∧
      ((smallVolume.view fullDisk).entry ⟨2, 0⟩).isDirectory = false ∧
      ((smallVolume.view fullDisk).entry ⟨2, 0⟩).fileSize = 0 ∧
      ((smallVolume.view fullDisk).entry ⟨2, 0⟩).firstCluster = 0 ∧
      ownClusters (smallVolume.view fullDisk) ⟨2, 0⟩ +
        (smallVolume.view fullDisk).freeClusters.length = smallVolume.clustersFor 64000 ∧
      firstAfter (smallVolume.view fullDisk) ⟨2, 0⟩ = 3 := by
    decide +kernel
  obtain ⟨hfind, hfile, hzero, h0, hexact, hfirst⟩ := heval
  have hroom : smallVolume.clustersFor 64000 ≤ ownClusters (smallVolume.view fullDisk) ⟨2, 0⟩ +
      (smallVolume.view fullDisk).freeClusters.length := by rw [hexact]
  obtain ⟨dev', heq, hiff⟩ := @append_empty_iff smallVolume ⟨fullDisk, []⟩ ⟨[0x61#8], []⟩
    (fun _ => 0) 64000 0 ⟨2, 0⟩ smallVolume_geometry fullDisk_wellFormed .root
    ⟨by decide, by decide, by decide⟩ hfind hfile hzero (Or.inl h0) (by decide)
    (by dsimp only; exact hroom)
  refine ⟨dev', heq, hiff.mpr ?_⟩
  dsimp only
  refine ⟨hexact, fun k _ => ?_⟩
  have hthird : (smallVolume.view fullDisk).data 3 k = 0 := by
    have hlba : smallVolume.clusterToLBA 3 = 3 := rfl
    have hdisk : fullDisk (smallVolume.clusterToLBA 3 + k / 512) (k % 512) = 0 := by
      rw [hlba, fullDisk, if_neg (by omega), if_neg (by omega)]
    rw [view]
    dsimp only
    rw [hdisk]
    exact ite_self _
  rw [hfirst, hthird]
  exact (ite_self _).symm

/-- Three bytes that are appended to the empty file `A` are read as zeros. -/
theorem append_empty_lost : Geometry smallVolume ∧ WellFormed smallVolume fullDisk ∧
    IsDirectory smallVolume (smallVolume.view fullDisk) (smallVolume.directoryOf 0) ∧
    OneSegment [0x61#8] ∧ smallVolume.findSlot ⟨fullDisk, []⟩ [0x61#8] 0 = some ⟨2, 0⟩ ∧
    ((smallVolume.view fullDisk).entry ⟨2, 0⟩).isDirectory = false ∧
    ((smallVolume.view fullDisk).entry ⟨2, 0⟩).fileSize = 0 ∧
    ((smallVolume.view fullDisk).entry ⟨2, 0⟩).firstCluster = 0 ∧
    smallVolume.clustersFor 3 < (smallVolume.view fullDisk).freeClusters.length ∧
    ∃ dev', smallVolume.appendFile ⟨fullDisk, []⟩ ⟨[0x61#8], []⟩ (fun _ => 0x2A#8) 3 0 = some dev' ∧
      smallVolume.readFile dev' [0x61#8] 512 0 = (3, [0, 0, 0]) ∧
      ¬ReadsExactly smallVolume dev' [0x61#8] (fun _ => 0x2A#8) 3 0 := by
  have heval : smallVolume.findSlot ⟨fullDisk, []⟩ [0x61#8] 0 = some ⟨2, 0⟩ ∧
      ((smallVolume.view fullDisk).entry ⟨2, 0⟩).isDirectory = false ∧
      ((smallVolume.view fullDisk).entry ⟨2, 0⟩).fileSize = 0 ∧
      ((smallVolume.view fullDisk).entry ⟨2, 0⟩).firstCluster = 0 ∧
      smallVolume.clustersFor 3 < (smallVolume.view fullDisk).freeClusters.length ∧
      ((smallVolume.appendFile ⟨fullDisk, []⟩ ⟨[0x61#8], []⟩ (fun _ => 0x2A#8) 3 0).map fun dev' =>
        smallVolume.readFile dev' [0x61#8] 512 0) = some (3, [0, 0, 0]) := by
    decide +kernel
  obtain ⟨hfind, hfile, hzero, h0, hroom, hread⟩ := heval
  obtain ⟨dev', heq, hread⟩ := Option.map_eq_some_iff.mp hread
  refine ⟨smallVolume_geometry, fullDisk_wellFormed, .root, ⟨by decide, by decide, by decide⟩,
    hfind,
    hfile, hzero, h0, hroom, dev', heq, hread, fun hexact => ?_⟩
  have hsame := hexact.1 512 (by decide)
  rw [hread] at hsame
  exact absurd hsame (by decide)

end Empty

end Sylphia
