import Sylphia.Fat.FreeChain
import Sylphia.Fat.Growth

/-!
# The operations

What `WriteFile`, `CreateDirectory`, `AppendFile` and `DeleteFile` make of a sound volume,
and the volumes the device goes through on the way.
-/

namespace Sylphia

open Bytes WriteLog Chain FAT32Driver

namespace DirectoryEntry

variable {e : DirectoryEntry} {name : List Byte} {c size : Nat} {attr : Byte}

theorem firstCluster_bytes (pre mid post : List Byte) (hpre : pre.length = 20)
    (hmid : mid.length = 4) (c : Nat) :
    firstCluster (pre ++ toLE 2 (c / 2 ^ 16) ++ mid ++ toLE 2 c ++ post) = c % 2 ^ 32 := by
  have hlo : ((pre ++ toLE 2 (c / 2 ^ 16) ++ mid ++ toLE 2 c ++ post).drop 26).take 2 =
      toLE 2 c := by
    have hlen : (pre ++ toLE 2 (c / 2 ^ 16) ++ mid).length = 26 := by simp [hpre, hmid]
    rw [List.append_assoc (pre ++ _ ++ _), ← hlen, List.drop_left]
    exact List.take_left' (length_toLE 2 c)
  have hhi : ((pre ++ toLE 2 (c / 2 ^ 16) ++ mid ++ toLE 2 c ++ post).drop 20).take 2 =
      toLE 2 (c / 2 ^ 16) := by
    rw [List.append_assoc, List.append_assoc, List.append_assoc, ← hpre, List.drop_left]
    exact List.take_left' (length_toLE 2 _)
  rw [firstCluster, hlo, hhi, ofLE_toLE, ofLE_toLE]
  omega

theorem fileSize_bytes (pre : List Byte) (hpre : pre.length = 28) (size : Nat) :
    fileSize (pre ++ toLE 4 size) = size % 2 ^ 32 := by
  rw [fileSize, ← hpre, List.drop_left, List.take_of_length_le (by simp), ofLE_toLE]
  rfl

section Create

variable (hname : name.length = 11)
include hname

theorem length_create (c size : Nat) (attr : Byte) : (create name c size attr).length = 32 := by
  simp [create, hname]

theorem name_create : (create name c size attr).name = name := by
  rw [DirectoryEntry.name, create, ← hname]
  simp only [List.append_assoc]
  exact List.take_left

theorem first_create : (create name c size attr).first = name.getD 0 0 := by
  rw [first, create]
  simp only [List.append_assoc]
  rw [List.getD_eq_getElem?_getD, List.getElem?_append_left (by omega),
    List.getD_eq_getElem?_getD]

theorem attr_create : (create name c size attr).attr = attr := by
  rw [DirectoryEntry.attr, create]
  simp only [List.append_assoc]
  rw [List.getD_eq_getElem?_getD, List.getElem?_append_right (by omega), hname]
  rfl

theorem isDirectory_create (c size : Nat) :
    (create name c size 0x10#8).isDirectory = true := by
  rw [DirectoryEntry.isDirectory, attr_create hname]
  decide

theorem firstCluster_create (hc : c < 2 ^ 32) : (create name c size attr).firstCluster = c := by
  rw [create, firstCluster_bytes (name ++ [attr] ++ List.replicate 8 0) _ _ (by simp [hname])
    (by simp), Nat.mod_eq_of_lt hc]

theorem fileSize_create : (create name c size attr).fileSize = size % 2 ^ 32 := by
  rw [create]
  exact fileSize_bytes _ (by simp [hname]) size

end Create

private theorem getD_of_take {e' : DirectoryEntry} (i n : Nat) (hi : i < n)
    (h : e'.take n = e.take n) : e'.getD i 0 = e.getD i 0 := by
  have hget : e'[i]? = e[i]? := by
    rw [← List.getElem?_take_of_lt hi, h, List.getElem?_take_of_lt hi]
  rw [List.getD_eq_getElem?_getD, List.getD_eq_getElem?_getD, hget]

section Update

variable (he : e.length = 32)
include he

theorem length_setFileSize (size : Nat) : (e.setFileSize size).length = 32 := by
  simp [setFileSize, he]

private theorem take_setFileSize {n : Nat} (hn : n ≤ 28) :
    (e.setFileSize size).take n = e.take n := by
  rw [setFileSize, List.take_append_of_le_length (by rw [List.length_take, he]; omega),
    List.take_take, Nat.min_eq_left hn]

theorem name_setFileSize : (e.setFileSize size).name = e.name := take_setFileSize he (by decide)

theorem first_setFileSize : (e.setFileSize size).first = e.first :=
  getD_of_take 0 28 (by decide) (take_setFileSize he le_rfl)

theorem attr_setFileSize : (e.setFileSize size).attr = e.attr :=
  getD_of_take 11 28 (by decide) (take_setFileSize he le_rfl)

theorem firstCluster_setFileSize : (e.setFileSize size).firstCluster = e.firstCluster := by
  have hpart {i : Nat} (hi : i + 2 ≤ 28) :
      ((e.setFileSize size).drop i).take 2 = (e.drop i).take 2 := by
    rw [List.take_drop, List.take_drop, take_setFileSize he hi]
  rw [firstCluster, firstCluster, hpart (by decide), hpart (by decide)]

theorem fileSize_setFileSize : (e.setFileSize size).fileSize = size % 2 ^ 32 := by
  rw [setFileSize]
  exact fileSize_bytes _ (by simp [he]) size

theorem length_setFirstCluster : (e.setFirstCluster c).length = 32 := by
  simp [setFirstCluster, he]

private theorem take_setFirstCluster {n : Nat} (hn : n ≤ 20) :
    (e.setFirstCluster c).take n = e.take n := by
  rw [setFirstCluster]
  simp only [List.append_assoc]
  rw [List.take_append_of_le_length (by rw [List.length_take, he]; omega),
    List.take_take, Nat.min_eq_left hn]

theorem name_setFirstCluster : (e.setFirstCluster c).name = e.name :=
  take_setFirstCluster he (by decide)

theorem first_setFirstCluster : (e.setFirstCluster c).first = e.first :=
  getD_of_take 0 20 (by decide) (take_setFirstCluster he le_rfl)

theorem attr_setFirstCluster : (e.setFirstCluster c).attr = e.attr :=
  getD_of_take 11 20 (by decide) (take_setFirstCluster he le_rfl)

theorem firstCluster_setFirstCluster (hc : c < 2 ^ 32) :
    (e.setFirstCluster c).firstCluster = c := by
  rw [setFirstCluster, firstCluster_bytes _ _ _ (by simp [he]) (by simp [he]), Nat.mod_eq_of_lt hc]

theorem fileSize_setFirstCluster : (e.setFirstCluster c).fileSize = e.fileSize := by
  have hlen : (e.take 20 ++ toLE 2 (c / 2 ^ 16) ++ (e.drop 22).take 4 ++ toLE 2 c).length = 28 := by
    simp [he]
  have hdrop : (e.setFirstCluster c).drop 28 = e.drop 28 := by
    rw [setFirstCluster]
    nth_rewrite 1 [← hlen]
    exact List.drop_left
  rw [fileSize, fileSize, hdrop]

theorem length_delete : e.delete.length = 32 := by simp [delete, he]

end Update

end DirectoryEntry

section SetSlot

variable {fs : FAT32Driver} {V : View} {d i : Nat} {ds : List Nat} {s : Slot} {e : DirectoryEntry}
  {ss : List Slot}

/-- The clusters of the entry are on a chain that nobody else has; a directory there is
empty. -/
def Acquires (fs : FAT32Driver) (V : View) (s : Slot) (e : DirectoryEntry) : Prop :=
  e.owner = true → e.firstCluster ≠ 0 → ∃ cs, ClusterChain fs V e.firstCluster cs ∧
    (∀ o c es, Owns fs V o c → o ≠ .slot s → ClusterChain fs V c es → ∀ x ∈ cs, x ∉ es) ∧
    (e.isDirectory = true → V.Ended (fs.slots cs) ∧
      ∀ t ∈ V.live (fs.slots cs), (V.entry t).isDot = true)

theorem slotWrite_setSlot (hd : IsDirectory fs V d) (hc : ClusterChain fs V d ds)
    (hs : s ∈ fs.slots ds) (he : e.length = 32)
    (hno : e.owner = true → (V.entry s).owner = true → (V.entry s).isDirectory = true →
      (V.entry s).firstCluster = 0)
    (howns : Acquires fs V s e) : SlotWrite fs V (V.setSlot s e) d ds s where
  directory := hd
  chain := hc
  mem := hs
  fat := rfl
  others := fun t hts _ => (entry_setSlot V s he).2 t hts
  otherData := fun _ hx => View.setData_data_of_ne V hx _
  noDirectory := by
    rw [(entry_setSlot V s he).1]
    exact hno
  owns := by
    rw [(entry_setSlot V s he).1]
    exact howns

/-- A search gets to the live slots. -/
theorem split_of_mem_live (h : s ∈ V.live ss) :
    ∃ pre post, ss = pre ++ s :: post ∧ ∀ t ∈ pre, (V.entry t).first ≠ 0 := by
  induction ss with
  | nil => cases h
  | cons x ss ih =>
    rw [View.live] at h
    split at h
    · cases h
    · next h0 =>
      have hrest (hs : s ∈ V.live ss) : ∃ pre post, x :: ss = pre ++ s :: post ∧
          ∀ t ∈ pre, (V.entry t).first ≠ 0 := by
        obtain ⟨pre, post, rfl, hpre⟩ := ih hs
        exact ⟨x :: pre, post, rfl, List.forall_mem_cons.mpr ⟨h0, hpre⟩⟩
      split at h
      · rcases List.mem_cons.mp h with rfl | h
        · exact ⟨[], ss, rfl, by simp⟩
        · exact hrest h
      · exact hrest h

/-- The slots of a directory before and behind one of its first cluster. -/
theorem slots_split (hi : i < fs.slotsPerCluster) (ds : List Nat) :
    ∃ post, fs.slots (d :: ds) = (List.range' 0 i).map (Slot.mk d) ++ ⟨d, i⟩ :: post := by
  have hrange : List.range' 0 fs.slotsPerCluster =
      List.range' 0 i ++ i :: List.range' (i + 1) (fs.slotsPerCluster - i - 1) := by
    rw [show fs.slotsPerCluster = i + ((fs.slotsPerCluster - i - 1) + 1) by omega,
      ← List.range'_append_1, List.range'_succ, Nat.zero_add]
    congr 3
    omega
  rw [slots_cons, hrange, List.map_append, List.map_cons, List.append_assoc]
  exact ⟨_, rfl⟩

theorem owner_of_isFree (h : e.isFree = true) : e.owner = false := by
  rw [DirectoryEntry.owner, isLive_of_isFree h]
  rfl

section Publish

variable (hv : SoundVolume fs V) (hd : IsDirectory fs V d) (hc : ClusterChain fs V d ds)
  (hi : i < fs.slotsPerCluster) (hfree : (V.entry ⟨d, i⟩).isFree = true)
  (hbefore : ∀ j < i, (V.entry ⟨d, j⟩).isFree = false) (he : e.length = 32)
  (howns : Acquires fs V ⟨d, i⟩ e)
include hc hi hbefore

private theorem publish_slots : ∃ pre post, fs.slots ds = pre ++ ⟨d, i⟩ :: post ∧
    ∀ t ∈ pre, (V.entry t).first ≠ 0 := by
  have hds : ∃ rest, ds = d :: rest := by
    cases hc with
    | last => exact ⟨_, rfl⟩
    | cons => exact ⟨_, rfl⟩
  obtain ⟨rest, rfl⟩ := hds
  obtain ⟨post, hsplit⟩ := slots_split (d := d) hi rest
  refine ⟨_, post, hsplit, fun t ht => ?_⟩
  obtain ⟨j, hj, rfl⟩ := List.mem_map.mp ht
  rw [List.mem_range'_1] at hj
  exact first_of_not_isFree (hbefore j (by omega))

include hd he howns hfree

theorem publish_write : SlotWrite fs V (V.setSlot ⟨d, i⟩ e) d ds ⟨d, i⟩ := by
  obtain ⟨pre, post, hslots, -⟩ := publish_slots hc hi hbefore
  refine slotWrite_setSlot hd hc (by rw [hslots]; simp) he (fun _ howner => ?_) howns
  rw [owner_of_isFree hfree] at howner
  cases howner

include hv

/-- Whatever the new entry is, no other slot comes to life. -/
theorem publish_back : ∀ t ∈ (V.setSlot ⟨d, i⟩ e).live (fs.slots ds), t ≠ ⟨d, i⟩ →
    t ∈ V.live (fs.slots ds) := by
  obtain ⟨pre, post, hslots, hpre⟩ := publish_slots hc hi hbefore
  have hwrite := publish_write hd hc hi hfree hbefore he howns
  have hnd : (fs.slots ds).Nodup := nodup_slots hc.nodup
  have hended := hv.ended d ds hd hc
  rw [hslots] at hnd hended ⊢
  obtain ⟨-, hnd', hcross⟩ := List.nodup_append.mp hnd
  have hpost := (List.pairwise_cons.mp (List.pairwise_append.mp hended).2.1).1
  have hsame {t : Slot} (ht : t ∈ pre ∨ t ∈ post) : (V.setSlot ⟨d, i⟩ e).entry t = V.entry t := by
    refine (entry_setSlot V _ he).2 t ?_
    rcases ht with ht | ht
    · exact hcross t ht _ (List.mem_cons_self ..)
    · rintro rfl
      exact (List.nodup_cons.mp hnd').1 ht
  rw [live_append fun t ht => (hsame (Or.inl ht)).symm ▸ hpre t ht, live_append hpre,
    live_cons fun h0 t ht => hpost t ht h0, isLive_of_isFree hfree,
    live_congr fun t ht => hsame (Or.inl ht)]
  intro t ht hne
  rcases List.mem_append.mp ht with ht | ht
  · exact List.mem_append_left _ ht
  · refine List.mem_append_right _ ?_
    rw [View.live] at ht
    split at ht
    · cases ht
    · rw [live_congr fun t ht => hsame (Or.inr ht)] at ht
      split at ht
      · exact (List.mem_cons.mp ht).resolve_left hne
      · exact ht

omit hv in
/-- A new entry that is live and has a name of its own. -/
theorem publish_change (hfirst : e.first ≠ 0)
    (hsized : e.owner = true → e.isDirectory = false → e.fileSize > 0 → e.firstCluster ≠ 0)
    (hname : ∀ t ∈ V.live (fs.slots ds), (V.entry t).name ≠ e.name) :
    ∃ pre post, SlotUpdate fs V (V.setSlot ⟨d, i⟩ e) d ds pre ⟨d, i⟩ post := by
  obtain ⟨pre, post, hslots, hpre⟩ := publish_slots hc hi hbefore
  refine ⟨pre, post, ⟨publish_write hd hc hi hfree hbefore he howns, hslots, hpre, ?_, ?_, ?_⟩,
    fun howner => ?_⟩
  on_goal 4 =>
    rw [owner_of_isFree hfree] at howner
    cases howner
  all_goals rw [(entry_setSlot V _ he).1]
  · exact hfirst
  · exact hsized
  · exact fun _ => Or.inr hname

end Publish

end SetSlot

section Create

variable {fs : FAT32Driver} {dev : BlockDevice} {V : View} {name : List Byte} {data : Buffer}
  {c d size parentCluster : Nat} {ds : List Nat}

/-- `WriteFile` of no bytes does nothing. -/
theorem writeFile_empty (hsize : size = 0) :
    fs.writeFile dev name data size parentCluster = dev := by
  rw [writeFile, writeWithin, if_pos hsize, Option.getD_some]

/-- `WriteFile` takes clusters for the data; when there are enough it makes an entry. -/
theorem writeFile_cases (hg : Geometry fs) (hsize : size ≠ 0) :
    ∃ new dev₁, Lengthens fs (fs.view dev.store) (fs.view dev₁.store) [] new ∧
      Advance fs (fs.view dev.store) [] dev dev₁ ∧
      ((fs.writeFile dev name data size parentCluster = dev₁ ∧
          new.length < fs.clustersFor size ∧ DiskFull (fs.view dev₁.store)) ∨
        ∃ first, new.head? = some first ∧ new.length = fs.clustersFor size ∧
          Stored fs (fs.view dev₁.store) data size new ∧
          fs.writeFile dev name data size parentCluster =
            fs.addDirectoryEntry dev₁ name first size 0x20#8 parentCluster) := by
  have hstart : Lengthens fs (fs.view dev.store) (fs.view dev.store) [] [] :=
    .refl fun _ hc => by cases hc
  obtain ⟨new, dev₁, h₁, hadv₁, hstores, hres⟩ := @writeLoop_spec fs (fs.view dev.store) dev
    (size + 1) [] hg data size 0 0 0 hstart (Or.inl ⟨rfl, rfl⟩) (Nat.lt_succ_self size)
  rw [List.nil_append] at h₁ hstores
  rw [writeFile, writeWithin, if_neg hsize]
  rcases hres with ⟨hres, hlen, hfull⟩ | ⟨first, last, hres, hlen, htaken⟩
  · rw [hres]
    exact ⟨new, dev₁, h₁, hadv₁, Or.inl ⟨rfl, hlen, hfull⟩⟩
  · have hne : new ≠ [] := by
      rintro rfl
      rw [clustersFor_step (clusterBytes_pos hg) (Nat.pos_of_ne_zero hsize)] at hlen
      cases hlen
    rw [List.nil_append] at htaken
    obtain ⟨hhead, init, hlast⟩ := htaken.resolve_left fun h => hne h.1
    obtain ⟨h₂, hadv₂⟩ := h₁.close hg hlast
    have hl := (h₁.lt (show last ∈ [] ++ new by rw [hlast]; simp)).2.1
    have hstored : Stored fs (fs.view dev₁.store) data size new := by
      have hall := hstores data 0 (fun k => by rw [Nat.zero_add]) (fun _ => (Nat.zero_mul _).symm)
        fun j c hj => by cases hj
      rwa [Nat.zero_add] at hall
    rw [hres]
    exact ⟨new, _, h₂, hadv₁.trans hadv₂, Or.inr ⟨first, hhead, hlen,
      hstored.congr fun c _ => by rw [data_linkCluster hg dev₁ hl], rfl⟩⟩

/-- `CreateDirectory` takes one cluster, writes `.` and `..` there and makes an entry. -/
theorem createDirectory_cases (hg : Geometry fs) :
    (fs.createDirectory dev name parentCluster = (0, dev) ∧ DiskFull (fs.view dev.store)) ∨
    ∃ c dev₁, Lengthens fs (fs.view dev.store) (fs.view dev₁.store) [] [c] ∧
      Advance fs (fs.view dev.store) [] dev dev₁ ∧
      (∀ k < fs.clusterBytes, (fs.view dev₁.store).data c k = dotEntries c parentCluster k) ∧
      fs.createDirectory dev name parentCluster =
        (c, fs.addDirectoryEntry dev₁ name c 0 0x10#8 parentCluster) := by
  have hstart : Lengthens fs (fs.view dev.store) (fs.view dev.store) [] [] :=
    .refl fun _ hc => by cases hc
  rw [createDirectory]
  rcases hstart.allocateFirst hg rfl with ⟨heq, hfull⟩ | ⟨c, dev₁, heq, hc0, h₁, hadv₁⟩
  · rw [heq]
    exact Or.inl ⟨rfl, hfull⟩
  · rw [heq]
    dsimp only
    rw [if_neg hc0]
    have hmem : c ∈ [] ++ ([] ++ [c]) := by simp
    obtain ⟨h2, hlt, -, h32⟩ := h₁.lt hmem
    obtain ⟨h₂, hadv₂⟩ := h₁.writeCluster hg hmem (dotEntries c parentCluster)
    obtain ⟨h₃, hadv₃⟩ := h₂.close hg (show [] ++ ([] ++ [c]) = [] ++ [c] from rfl)
    refine Or.inr ⟨c, _, h₃, hadv₁.trans (hadv₂.trans hadv₃), fun k hk => ?_, rfl⟩
    rw [(@linkCluster_view fs (fun _ => True) c hg _ hlt _).1, View.setFat_data,
      (@writeCluster_view fs (fun _ => True) c hg dev₁ h2 h32 _).1, View.setData_data_self,
      if_pos hk]

section DotEntries

private theorem dirEntry_dot (c parentCluster : Nat) : dirEntry (dotEntries c parentCluster) 0 =
    DirectoryEntry.create (0x2E#8 :: List.replicate 10 0x20#8) c 0 0x10#8 := by
  rw [dirEntry, dotEntries, slice_splice_of_disjoint (Or.inl (by decide))]
  exact slice_splice_self _ 0 (DirectoryEntry.create _ c 0 0x10#8)

private theorem dirEntry_dotdot (c parentCluster : Nat) : dirEntry (dotEntries c parentCluster) 1 =
    DirectoryEntry.create (0x2E#8 :: 0x2E#8 :: List.replicate 9 0x20#8) parentCluster 0 0x10#8 :=
  slice_splice_self _ 32 (DirectoryEntry.create _ parentCluster 0 0x10#8)

private theorem first_dotEntries {j : Nat} (hj : 2 ≤ j) :
    (dirEntry (dotEntries c parentCluster) j).first = 0 := by
  have hlen (n : List Byte) (hn : n.length = 11) (x : Nat) :
      (DirectoryEntry.create n x 0 0x10#8).length = 32 := DirectoryEntry.length_create hn _ _ _
  rw [dirEntry, dotEntries, slice_splice_of_disjoint (Or.inr (by rw [hlen _ rfl]; omega)),
    slice_splice_of_disjoint (Or.inr (by rw [hlen _ rfl]; omega))]
  rfl

variable (hdata : ∀ k < fs.clusterBytes, V.data c k = dotEntries c parentCluster k)
include hdata

private theorem entry_dotEntries {j : Nat} (hj : j < fs.slotsPerCluster) :
    V.entry ⟨c, j⟩ = dirEntry (dotEntries c parentCluster) j := by
  rw [View.entry, dirEntry, dirEntry]
  refine slice_congr fun k hk => hdata _ ?_
  rw [slotsPerCluster] at hj
  rw [clusterBytes]
  dsimp only
  omega

/-- The entry `..` of a new directory. -/
theorem entry_dotdot (hslots : 1 < fs.slotsPerCluster) : V.entry ⟨c, 1⟩ =
    .create (0x2E#8 :: 0x2E#8 :: List.replicate 9 0x20#8) parentCluster 0 0x10#8 := by
  rw [entry_dotEntries hdata hslots, dirEntry_dotdot]

/-- The live slots of a new directory are those of `.` and of `..`. -/
theorem live_dotEntries {t : Slot} (ht : t ∈ V.live (fs.slots [c])) : t.cluster = c ∧
    (t.index = 0 ∧ (V.entry t).name = 0x2E#8 :: List.replicate 10 0x20#8 ∨
      t.index = 1 ∧ (V.entry t).name = 0x2E#8 :: 0x2E#8 :: List.replicate 9 0x20#8) := by
  obtain ⟨x, j⟩ := t
  obtain ⟨hx, hj⟩ := mem_slots.mp (live_subset V _ _ ht)
  obtain rfl : x = c := List.mem_singleton.mp hx
  dsimp only at hj ⊢
  have hlive := first_of_isLive (isLive_of_mem_live ht)
  rw [entry_dotEntries hdata hj] at hlive ⊢
  have hj2 : j < 2 := by
    by_contra hge
    exact hlive (first_dotEntries (by omega))
  refine ⟨rfl, ?_⟩
  rcases Nat.lt_or_ge j 1 with h1 | h1
  · obtain rfl : j = 0 := by omega
    rw [dirEntry_dot, DirectoryEntry.name_create rfl]
    exact Or.inl ⟨rfl, rfl⟩
  · obtain rfl : j = 1 := by omega
    rw [dirEntry_dotdot, DirectoryEntry.name_create rfl]
    exact Or.inr ⟨rfl, rfl⟩

/-- A new directory has only `.` and `..`. -/
theorem dotEntries_empty :
    V.Ended (fs.slots [c]) ∧ ∀ t ∈ V.live (fs.slots [c]), (V.entry t).isDot = true := by
  constructor
  · have hslots : fs.slots [c] = (List.range' 0 fs.slotsPerCluster).map (Slot.mk c) := by
      rw [slots_cons]
      exact List.append_nil _
    rw [hslots, View.Ended, List.pairwise_map]
    refine List.Pairwise.imp_of_mem (fun {i j} hi hj hij => ?_) List.pairwise_lt_range'
    rw [List.mem_range'_1] at hi hj
    rw [entry_dotEntries hdata (by omega), entry_dotEntries hdata (by omega)]
    intro h0
    refine first_dotEntries ?_
    by_contra hlt
    have hi0 : i = 0 := by omega
    rw [hi0, dirEntry_dot, DirectoryEntry.first_create rfl] at h0
    cases h0
  · intro t ht
    obtain ⟨-, ⟨-, hname⟩ | ⟨-, hname⟩⟩ := live_dotEntries hdata ht
    · rw [DirectoryEntry.isDot, hname]
      decide
    · rw [DirectoryEntry.isDot, hname]
      decide

/-- A new directory has a slot behind these. -/
theorem dotEntries_free (hslots : 2 < fs.slotsPerCluster) : (V.entry ⟨c, 2⟩).isFree = true := by
  rw [entry_dotEntries hdata hslots, DirectoryEntry.isFree, first_dotEntries (Nat.le_refl 2)]
  rfl

end DotEntries

end Create

/-! ## Files that there are -/

section Update

variable {fs : FAT32Driver} {dev : BlockDevice} {V₀ V : View} {name : List Byte} {data : Buffer}
  {c d n size parentCluster : Nat} {ds cs new : List Nat} {s : Slot} {e : DirectoryEntry}

/-- The clusters of a file, if it has any. -/
def FileChain (fs : FAT32Driver) (V : View) (s : Slot) (cs : List Nat) : Prop :=
  ((V.entry s).firstCluster = 0 ∧ cs = []) ∨ ClusterChain fs V (V.entry s).firstCluster cs

/-- No other owner has a cluster of the file. -/
theorem FileChain.apart (h : FileChain fs V s cs) (hv : SoundVolume fs V) (hs : Listed fs V s)
    {o : Owner} {es : List Nat} (ho : Owns fs V o c) (hne : o ≠ .slot s)
    (hc : ClusterChain fs V c es) : ∀ x ∈ es, x ∉ cs := by
  rcases h with ⟨-, rfl⟩ | h
  · exact fun _ _ hx => by cases hx
  · have h0 : (V.entry s).firstCluster ≠ 0 := fun h0 => absurd (h0 ▸ h.valid_head.1) (by decide)
    exact hv.disjoint o (.slot s) c _ es cs ho ⟨hs, rfl, h0⟩ hne hc h

/-- What stays within the clusters of a file leaves the rest of the volume alone. -/
theorem FileChain.frame (h : FileChain fs V₀ s cs) (hv : SoundVolume fs V₀) (hs : Listed fs V₀ s)
    (hfile : (V₀.entry s).isDirectory = false) (hw : Within fs V₀ cs V) :
    SoundVolume fs V ∧ SameDirectories fs V₀ V ∧ Kept fs (some s) V₀ V := by
  refine hw.frame hv (fun t ht => ?_) fun o b es ho hc => ?_
  · rwa [← Option.some.inj ht]
  · by_cases hne : o = .slot s
    · subst hne
      rcases h with ⟨-, rfl⟩ | h
      · exact Or.inr fun _ _ hx => by cases hx
      · obtain ⟨-, hfirst, -⟩ := ho
        rw [hfirst] at h
        exact Or.inl ⟨s, rfl, rfl, hc.unique h⟩
    · exact Or.inr (h.apart hv hs ho hne hc)

/-- A chain apart from the one that is lengthened stays. -/
theorem Lengthens.keeps_chain (h : Lengthens fs V₀ V cs new) {es : List Nat}
    (hc : ClusterChain fs V₀ c es) (hcs : ∀ x ∈ es, x ∉ cs) :
    ClusterChain fs V c es ∧ ∀ x ∈ es, x ∉ cs ++ new := by
  have hnew : ∀ x ∈ es, x ∉ new := fun x hx hn => fat_ne_zero hc hx (h.free x hn).2.2
  refine ⟨hc.congr fun x hx => ?_, fun x hx hmem => ?_⟩
  · rw [View.next, View.next, h.fat x (hcs x hx) (hnew x hx)]
  · exact (List.mem_append.mp hmem).elim (hcs x hx) (hnew x hx)

/-- The chain of another owner is as it was. -/
theorem Lengthens.other_chain (h : Lengthens fs V₀ V cs new) (hv : SoundVolume fs V₀) {o : Owner}
    {es : List Nat} (ho : Owns fs V₀ o c)
    (hcs : ∀ es, ClusterChain fs V₀ c es → ∀ x ∈ es, x ∉ cs) (hc : ClusterChain fs V c es) :
    ClusterChain fs V₀ c es ∧ ∀ x ∈ es, x ∉ cs ++ new := by
  obtain ⟨es₀, hc₀⟩ := hv.chains o c ho
  obtain ⟨hsame, hnot⟩ := h.keeps_chain hc₀ (hcs es₀ hc₀)
  obtain rfl := hsame.unique hc
  exact ⟨hc₀, hnot⟩

/-- The entry that `AppendFile` leaves. -/
def DirectoryEntry.appended (e : DirectoryEntry) (size first : Nat) : DirectoryEntry :=
  if e.fileSize = 0 then (e.setFileSize (e.fileSize + size)).setFirstCluster first
  else e.setFileSize (e.fileSize + size)

theorem length_entry (V : View) (s : Slot) : (V.entry s).length = 32 := length_slice ..

/-- The entry keeps its name and its attributes. -/
theorem appended_keeps (he : e.length = 32) (size first : Nat) :
    (e.appended size first).length = 32 ∧ (e.appended size first).name = e.name ∧
      (e.appended size first).first = e.first ∧ (e.appended size first).attr = e.attr ∧
      (e.appended size first).fileSize = (e.fileSize + size) % 2 ^ 32 := by
  have hlen := DirectoryEntry.length_setFileSize he (e.fileSize + size)
  rw [DirectoryEntry.appended]
  split
  · rw [DirectoryEntry.name_setFirstCluster hlen, DirectoryEntry.first_setFirstCluster hlen,
      DirectoryEntry.attr_setFirstCluster hlen, DirectoryEntry.fileSize_setFirstCluster hlen]
    exact ⟨DirectoryEntry.length_setFirstCluster hlen, DirectoryEntry.name_setFileSize he,
      DirectoryEntry.first_setFileSize he, DirectoryEntry.attr_setFileSize he,
      DirectoryEntry.fileSize_setFileSize he⟩
  · exact ⟨hlen, DirectoryEntry.name_setFileSize he, DirectoryEntry.first_setFileSize he,
      DirectoryEntry.attr_setFileSize he, DirectoryEntry.fileSize_setFileSize he⟩

theorem appended_owner (he : e.length = 32) (size first : Nat) :
    (e.appended size first).owner = e.owner := by
  obtain ⟨-, hname, hbyte, hattr, -⟩ := appended_keeps he size first
  rw [DirectoryEntry.owner, DirectoryEntry.owner, DirectoryEntry.isLive, DirectoryEntry.isLive,
    DirectoryEntry.isDot, DirectoryEntry.isDot, hname, hbyte, hattr]

theorem appended_firstCluster (he : e.length = 32) {first : Nat} (hfirst : first < 2 ^ 32)
    (hold : e.fileSize ≠ 0 → e.firstCluster = first) :
    (e.appended size first).firstCluster = first := by
  rw [DirectoryEntry.appended]
  split
  · exact DirectoryEntry.firstCluster_setFirstCluster (DirectoryEntry.length_setFileSize he _)
      hfirst
  · next h0 => rw [DirectoryEntry.firstCluster_setFileSize he, hold h0]

/-- The file after `AppendFile` has taken clusters. -/
structure Appended (fs : FAT32Driver) (dev dev₁ : BlockDevice) (s : Slot) (cs new : List Nat)
    (first : Nat) : Prop where
  file : FileChain fs (fs.view dev.store) s cs
  grown : Lengthens fs (fs.view dev.store) (fs.view dev₁.store) cs new
  advance : Advance fs (fs.view dev.store) cs dev dev₁
  head : (cs ++ new).head? = some first

namespace Appended

variable {dev₁ : BlockDevice} {first : Nat} (h : Appended fs dev dev₁ s cs new first)
  (hv : SoundVolume fs (fs.view dev.store)) (hs : Listed fs (fs.view dev.store) s)
  (hfile : ((fs.view dev.store).entry s).isDirectory = false)
include h hv hs hfile

theorem frame : SoundVolume fs (fs.view dev₁.store) ∧
    SameDirectories fs (fs.view dev.store) (fs.view dev₁.store) ∧
    Kept fs (some s) (fs.view dev.store) (fs.view dev₁.store) :=
  h.file.frame hv hs hfile h.grown.within

theorem firstCluster (size : Nat) :
    (((fs.view dev.store).entry s).appended size first).firstCluster = first := by
  have hmem : first ∈ cs ++ new := List.mem_of_head? h.head
  refine appended_firstCluster (length_entry _ s) (h.grown.lt hmem).2.2.2 fun h0 => ?_
  have hfirst := hv.sized s hs hfile (Nat.pos_of_ne_zero h0)
  rcases h.file with ⟨h0, -⟩ | hc
  · exact absurd h0 hfirst
  · have hhead := h.head
    rw [List.head?_append, hc.head?_eq, Option.some_or] at hhead
    exact Option.some.inj hhead

/-- The entry is updated. -/
theorem change (size : Nat) {pre post : List Slot} (hd : IsDirectory fs (fs.view dev.store) d)
    (hc : ClusterChain fs (fs.view dev.store) d ds) (hslots : fs.slots ds = pre ++ s :: post)
    (hpre : ∀ t ∈ pre, ((fs.view dev.store).entry t).first ≠ 0) :
    SlotUpdate fs (fs.view dev₁.store)
      ((fs.view dev₁.store).setSlot s (((fs.view dev.store).entry s).appended size first)) d ds
      pre s post := by
  obtain ⟨hv₁, hsame, -⟩ := h.frame hv hs hfile
  have hmem : s ∈ fs.slots ds := by
    rw [hslots]
    simp
  have hentry := hsame.entry hd hc hmem
  obtain ⟨hlen, hname, hbyte, hattr, -⟩ := appended_keeps
    (length_entry (fs.view dev.store) s) size first
  have hfirst := h.firstCluster hv hs hfile size
  have hfirst0 : first ≠ 0 := by
    have := (h.grown.lt (List.mem_of_head? h.head)).1
    omega
  have hlive := isLive_of_mem_live hs.choose_spec.choose_spec.2.2.1
  have hisdir : (((fs.view dev.store).entry s).appended size first).isDirectory = false := by
    rw [DirectoryEntry.isDirectory, hattr]
    exact hfile
  have hset := (entry_setSlot (fs.view dev₁.store) s hlen).1
  have hkeeps : ((fs.view dev₁.store).entry s).isDirectory = true →
      ((fs.view dev₁.store).entry s).firstCluster = 0 := by
    intro hdir
    rw [hentry, hfile] at hdir
    cases hdir
  refine ⟨⟨slotWrite_setSlot ((hsame.isDirectory_iff hv).mpr hd) (hsame d ds hd hc).1 hmem hlen
    (fun _ _ => hkeeps) (fun _ _ => ?_), hslots, fun t ht => ?_, ?_, ?_, ?_⟩, fun _ => hkeeps⟩
  · rw [hfirst]
    refine ⟨cs ++ new, h.grown.chain first h.head, fun o c es ho hne hes x hx hx' => ?_,
      fun hdir => ?_⟩
    · rw [hsame.owns_iff hv] at ho
      exact (h.grown.other_chain hv ho (fun es' hes' => h.file.apart hv hs ho hne hes') hes).2
        x hx' hx
    · rw [hisdir] at hdir
      cases hdir
  · rw [hsame.entry hd hc (by rw [hslots]; simp [ht])]
    exact hpre t ht
  · rw [hset, hbyte]
    exact first_of_isLive hlive
  · rw [hset, hfirst]
    exact fun _ _ _ => hfirst0
  · rw [hset, hname, hentry]
    exact fun _ => Or.inl ⟨hlive, rfl⟩

end Appended

/-- The last pass of `AppendFile` finds the entry again. -/
theorem updateEntry_eq {dev₁ : BlockDevice} {oldSize first : Nat}
    (hv : SoundVolume fs (fs.view dev.store)) (hd : IsDirectory fs (fs.view dev.store) d)
    (hc : ClusterChain fs (fs.view dev.store) d ds)
    (hs : (fs.view dev.store).find name (fs.slots (ds.take n)) = some s)
    (hv₁ : SoundVolume fs (fs.view dev₁.store))
    (hsame : SameDirectories fs (fs.view dev.store) (fs.view dev₁.store))
    (hold : ((fs.view dev.store).entry s).fileSize = oldSize) :
    fs.updateEntry dev₁ name d oldSize size first =
      some (fs.writeSlot dev₁ (BlockDevice.read dev₁ (fs.clusterToLBA s.cluster)) s
        (((fs.view dev.store).entry s).appended size first)) := by
  have hd₁ := (hsame.isDirectory_iff hv).mpr hd
  have hc₁ := (hsame d ds hd hc).1
  have hfind : (fs.view dev₁.store).find name (fs.slots ds) = some s := by
    rw [find_congr name fun t ht => hsame.entry hd hc ht, slots_take fs ds n]
    exact find_append_of_some hs
  have hmem : s ∈ fs.slots ds := live_subset _ _ s (mem_of_find hfind)
  have hentry : dirEntry (BlockDevice.read dev₁ (fs.clusterToLBA s.cluster)) s.index =
      (fs.view dev.store).entry s := (slotEntry_eq hc₁ hmem).trans (hsame.entry hd hc hmem)
  rw [updateEntry, updateWithin, searchLoop_eq hc₁ (hv₁.ended d ds hd₁ hc₁)
    (ClusterChain.length_lt hc₁), hfind]
  dsimp only
  rw [hentry, DirectoryEntry.appended, hold]

section Found

variable {name : CString} {dev₁ : BlockDevice} {init : List Nat} {last : Nat} (hg : Geometry fs)
  (hv : SoundVolume fs (fs.view dev.store)) (hdir : fs.directoryOf parentCluster = d)
  (hd : IsDirectory fs (fs.view dev.store) d) (hc : ClusterChain fs (fs.view dev.store) d ds)
  (hsize : size ≠ 0)
  (hs : (fs.view dev.store).find name.chars (fs.slots (ds.take 10001)) = some s)
  (hfile : ((fs.view dev.store).entry s).isDirectory = false)
include hd hc hs

private theorem findDirectoryEntry_of_find :
    fs.findDirectoryEntry dev name.chars d = some ((fs.view dev.store).entry s) := by
  rw [findDirectoryEntry, findSlot_eq hc, hs, Option.map_some,
    slotEntry_eq hc (live_subset _ _ s (listed_of_find hd hc hs).2)]

include hdir hsize

/-- `AppendFile` on a file without clusters, when there is a free one. -/
theorem appendFile_of_zero (h0 : ((fs.view dev.store).entry s).firstCluster = 0)
    (heq : fs.allocateCluster dev = (c, dev₁)) (hc0 : c ≠ 0) :
    fs.appendFile dev name data size parentCluster =
      fs.updateEntry (fs.appendData dev₁ data size ((fs.view dev.store).entry s).fileSize c)
        name.chars d ((fs.view dev.store).entry s).fileSize size c := by
  rw [appendFile, if_neg hsize, hdir]
  dsimp only
  rw [findDirectoryEntry_of_find hd hc hs]
  dsimp only
  rw [if_pos h0, heq]
  exact if_neg hc0

/-- `AppendFile` on a file with clusters. -/
theorem appendFile_of_chain (hcs : ClusterChain fs (fs.view dev.store)
      ((fs.view dev.store).entry s).firstCluster (init ++ [last])) :
    fs.appendFile dev name data size parentCluster =
      fs.updateEntry (fs.appendData dev data size ((fs.view dev.store).entry s).fileSize last)
        name.chars d ((fs.view dev.store).entry s).fileSize size
        ((fs.view dev.store).entry s).firstCluster := by
  have h0 : ((fs.view dev.store).entry s).firstCluster ≠ 0 := by
    intro h0
    rw [h0] at hcs
    exact absurd hcs.valid_head.1 (by decide)
  have hlen := ClusterChain.length_lt hcs
  rw [List.length_append, List.length_singleton] at hlen
  rw [appendFile, if_neg hsize, hdir]
  dsimp only
  rw [findDirectoryEntry_of_find hd hc hs]
  dsimp only
  rw [if_neg h0, lastLoop_eq hcs (by omega)]

include hg hv hfile

/-- The file gets a first cluster and more, and its entry is updated. -/
theorem appendFile_first (h0 : ((fs.view dev.store).entry s).firstCluster = 0)
    (heq : fs.allocateCluster dev = (c, dev₁)) (hc0 : c ≠ 0) :
    let dev' := fs.appendData dev₁ data size ((fs.view dev.store).entry s).fileSize c
    ∃ more, Appended fs dev dev' s [] (c :: more) c ∧
      (more.length = fs.clustersFor (size - fs.roomInLast ((fs.view dev.store).entry s).fileSize) ∨
        more.length < fs.clustersFor
            (size - fs.roomInLast ((fs.view dev.store).entry s).fileSize) ∧
          DiskFull (fs.view dev'.store)) ∧
      (((fs.view dev.store).entry s).fileSize = 0 →
        Stores fs (fs.view dev₁.store) (fs.view dev'.store) data size 0 [c] (c :: more)) ∧
      fs.appendFile dev name data size parentCluster =
        some (fs.writeSlot dev' (BlockDevice.read dev' (fs.clusterToLBA s.cluster)) s
          (((fs.view dev.store).entry s).appended size c)) := by
  intro dev'
  have hlist := (listed_of_find hd hc hs).1
  have hstart : Lengthens fs (fs.view dev.store) (fs.view dev.store) [] [] :=
    .refl fun _ hc => by cases hc
  rcases hstart.allocateFirst hg rfl with ⟨hfull, -⟩ | ⟨c', dev₁', heq', -, h₁, hadv₁⟩
  · rw [heq, Prod.mk.injEq] at hfull
    exact absurd hfull.1 hc0
  · rw [heq, Prod.mk.injEq] at heq'
    obtain ⟨rfl, rfl⟩ := heq'
    obtain ⟨more, h₂, hadv₂, hcount, hstores, -⟩ := appendData_spec hg data size
      ((fs.view dev.store).entry s).fileSize h₁ (show [] ++ [c] = [] ++ [c] from rfl)
    have happ : Appended fs dev dev' s [] (c :: more) c :=
      ⟨Or.inl ⟨h0, rfl⟩, h₂, hadv₁.trans hadv₂, rfl⟩
    obtain ⟨hv₂, hsame, -⟩ := happ.frame hv hlist hfile
    refine ⟨more, happ, hcount, hstores, ?_⟩
    rw [appendFile_of_zero hdir hd hc hsize hs h0 heq hc0]
    exact updateEntry_eq hv hd hc hs hv₂ hsame rfl

/-- The chain of the file goes on, and its entry is updated. -/
theorem appendFile_more (hcs : ClusterChain fs (fs.view dev.store)
      ((fs.view dev.store).entry s).firstCluster (init ++ [last])) :
    let dev' := fs.appendData dev data size ((fs.view dev.store).entry s).fileSize last
    ∃ more, Appended fs dev dev' s (init ++ [last]) more
        ((fs.view dev.store).entry s).firstCluster ∧
      (more.length = fs.clustersFor (size - fs.roomInLast ((fs.view dev.store).entry s).fileSize) ∨
        more.length < fs.clustersFor
            (size - fs.roomInLast ((fs.view dev.store).entry s).fileSize) ∧
          DiskFull (fs.view dev'.store)) ∧
      (((fs.view dev.store).entry s).fileSize = 0 →
        Stores fs (fs.view dev.store) (fs.view dev'.store) data size 0 (init ++ [last])
          (init ++ [last] ++ more)) ∧
      (0 < ((fs.view dev.store).entry s).fileSize →
        (init ++ [last]).length = fs.clustersFor ((fs.view dev.store).entry s).fileSize →
        ∀ content,
          Stored fs (fs.view dev.store) content ((fs.view dev.store).entry s).fileSize
            (init ++ [last]) →
          Stored fs (fs.view dev'.store)
            (joined content ((fs.view dev.store).entry s).fileSize data)
            (((fs.view dev.store).entry s).fileSize + size) (init ++ [last] ++ more)) ∧
      fs.appendFile dev name data size parentCluster =
        some (fs.writeSlot dev' (BlockDevice.read dev' (fs.clusterToLBA s.cluster)) s
          (((fs.view dev.store).entry s).appended size
            ((fs.view dev.store).entry s).firstCluster)) := by
  intro dev'
  have hlist := (listed_of_find hd hc hs).1
  have hstart : Lengthens fs (fs.view dev.store) (fs.view dev.store) (init ++ [last]) [] := by
    refine .refl fun b hb => ?_
    rw [hcs.head?_eq] at hb
    exact Option.some.inj hb ▸ hcs
  obtain ⟨more, h₂, hadv₂, hcount, hempty, hfilled⟩ := appendData_spec hg data size
    ((fs.view dev.store).entry s).fileSize hstart (List.append_nil _)
  rw [List.nil_append] at h₂ hempty hfilled
  rw [List.append_nil] at hempty hfilled
  have happ : Appended fs dev dev' s (init ++ [last]) more
      ((fs.view dev.store).entry s).firstCluster := by
    refine ⟨Or.inr hcs, h₂, hadv₂, ?_⟩
    rw [List.head?_append, hcs.head?_eq, Option.some_or]
  obtain ⟨hv₂, hsame, -⟩ := happ.frame hv hlist hfile
  refine ⟨more, happ, hcount, hempty, hfilled, ?_⟩
  rw [appendFile_of_chain hdir hd hc hsize hs hcs]
  exact updateEntry_eq hv hd hc hs hv₂ hsame rfl

/-- `AppendFile` on a file that there is. -/
theorem appendFile_cases :
    (fs.appendFile dev name data size parentCluster = some dev ∧
      ((fs.view dev.store).entry s).firstCluster = 0 ∧ DiskFull (fs.view dev.store)) ∨
    ∃ cs new first dev₁, Appended fs dev dev₁ s cs new first ∧
      (cs ≠ [] → new.length = fs.clustersFor
          (size - fs.roomInLast ((fs.view dev.store).entry s).fileSize) ∨
        new.length < fs.clustersFor
            (size - fs.roomInLast ((fs.view dev.store).entry s).fileSize) ∧
          DiskFull (fs.view dev₁.store)) ∧
      fs.appendFile dev name data size parentCluster =
        some (fs.writeSlot dev₁ (BlockDevice.read dev₁ (fs.clusterToLBA s.cluster)) s
          (((fs.view dev.store).entry s).appended size first)) := by
  by_cases h0 : ((fs.view dev.store).entry s).firstCluster = 0
  · rcases allocateCluster_view hg dev with ⟨heq, hfull⟩ | ⟨c, dev₁, heq, h2, -⟩
    · refine Or.inl ⟨?_, h0, hfull⟩
      rw [appendFile, if_neg hsize, hdir]
      dsimp only
      rw [findDirectoryEntry_of_find hd hc hs]
      dsimp only
      rw [if_pos h0, heq]
      rfl
    · obtain ⟨more, happ, -, -, hres⟩ :=
        appendFile_first hg hv hdir hd hc hsize hs hfile h0 heq (by omega)
      exact Or.inr ⟨_, _, c, _, happ, fun hne => absurd rfl hne, hres⟩
  · obtain ⟨cs, hcs⟩ := hv.chains (.slot s) _ ⟨(listed_of_find hd hc hs).1, rfl, h0⟩
    obtain ⟨init, last, rfl, -⟩ := hcs.exists_last
    obtain ⟨more, happ, hcount, -, -, hres⟩ :=
      appendFile_more hg hv hdir hd hc hsize hs hfile hcs
    exact Or.inr ⟨_, _, _, _, happ, fun _ => hcount, hres⟩

end Found

end Update

section Delete

variable {fs : FAT32Driver} {dev : BlockDevice} {V : View} {name : List Byte}
  {c d n parentCluster : Nat} {ds cs : List Nat} {s : Slot}

/-- Clusters that nobody owns are freed. -/
theorem frame_clear (hv : SoundVolume fs V)
    (cs : List Nat) (hcs : ∀ o b es, Owns fs V o b → ClusterChain fs V b es → ∀ x ∈ es, x ∉ cs) :
    SoundVolume fs (V.clear cs) ∧ SameDirectories fs V (V.clear cs) ∧
      Kept fs none V (V.clear cs) := by
  refine hv.frame (fun t ht => by cases ht) (fun o b es ho _ hc x hx => ?_)
    fun t _ _ ht => by cases ht
  exact ⟨if_neg (hcs o b es ho hc x hx), rfl⟩

/-- `DeleteFile` frees the clusters of the file and then marks its entry. -/
theorem deleteFile_cases (hg : Geometry fs) (hv : SoundVolume fs (fs.view dev.store))
    (hdir : fs.directoryOf parentCluster = d) (hd : IsDirectory fs (fs.view dev.store) d)
    (hc : ClusterChain fs (fs.view dev.store) d ds) :
    ((fs.view dev.store).find name (fs.slots ds) = none ∧
      fs.deleteFile dev name parentCluster = some (false, dev)) ∨
    ∃ s cs dev₁, (fs.view dev.store).find name (fs.slots ds) = some s ∧
      FileChain fs (fs.view dev.store) s cs ∧
      (if ((fs.view dev.store).entry s).firstCluster = 0 then some dev
        else fs.freeChain dev ((fs.view dev.store).entry s).firstCluster) = some dev₁ ∧
      ClustersFreed fs dev dev₁ cs ∧
      fs.deleteFile dev name parentCluster = some (true, fs.writeSlot dev₁
        (BlockDevice.read dev (fs.clusterToLBA s.cluster)) s
          ((fs.view dev.store).entry s).delete) := by
  rw [deleteFile, deleteWithin, hdir, searchLoop_eq hc (hv.ended d ds hd hc)
    (ClusterChain.length_lt hc)]
  cases hfind : (fs.view dev.store).find name (fs.slots ds) with
  | none => exact Or.inl ⟨rfl, rfl⟩
  | some s =>
    have hlive := mem_of_find hfind
    have hlist : Listed fs (fs.view dev.store) s :=
      ⟨d, ds, hd, hc, hlive, isDot_of_isNameEqual (name_of_find hfind)⟩
    have hentry : dirEntry (BlockDevice.read dev (fs.clusterToLBA s.cluster)) s.index =
        (fs.view dev.store).entry s := slotEntry_eq hc (live_subset _ _ s hlive)
    dsimp only
    rw [hentry]
    by_cases h0 : ((fs.view dev.store).entry s).firstCluster = 0
    · rw [if_pos h0]
      exact Or.inr ⟨s, [], dev, rfl, Or.inl ⟨h0, rfl⟩, if_pos h0, .refl fs dev, rfl⟩
    · rw [if_neg h0, ← freeChain]
      obtain ⟨cs, hcs⟩ := hv.chains (.slot s) _ ⟨hlist, rfl, h0⟩
      obtain ⟨dev₁, heq, hfrees⟩ := freeChain_eq hg hcs
      rw [heq]
      exact Or.inr ⟨s, cs, dev₁, rfl, Or.inr hcs, (if_neg h0).trans heq, hfrees, rfl⟩

/-- An entry is marked as deleted. -/
theorem delete_change {pre post : List Slot} (hd : IsDirectory fs V d)
    (hc : ClusterChain fs V d ds) (hslots : fs.slots ds = pre ++ s :: post)
    (hpre : ∀ t ∈ pre, (V.entry t).first ≠ 0) :
    SlotChange fs V (V.setSlot s (V.entry s).delete) d ds pre s post := by
  have hlen := DirectoryEntry.length_delete (length_entry V s)
  have hset := (entry_setSlot V s hlen).1
  have hdead : (V.entry s).delete.isLive = false := rfl
  have howner : (V.entry s).delete.owner = false := by rw [DirectoryEntry.owner, hdead]; rfl
  have hnot : (V.entry s).delete.owner ≠ true := by
    rw [howner]
    exact Bool.false_ne_true
  refine ⟨slotWrite_setSlot hd hc (by rw [hslots]; simp) hlen (fun ho => absurd ho hnot)
    (fun ho => absurd ho hnot), hslots, hpre, ?_, ?_, ?_⟩
  · rw [hset]
    exact (by decide : (0xE5#8 : Byte) ≠ 0)
  · rw [hset, howner]
    exact fun h => by cases h
  · rw [hset, hdead]
    exact fun h => by cases h

end Delete

end Sylphia
