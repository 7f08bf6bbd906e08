import Sylphia.Fat.DotDot
import Sylphia.Fat.ReadBack

/-!
# A new entry among others

`AddDirectoryEntry` puts a new entry into the first free slot of the first cluster of a
directory, whatever names the directory has. A search for the name then ends at the entry,
unless there is one with the name before it.
-/

namespace Sylphia

open Bytes WriteLog Chain FAT32Driver

/-- The slot that `AddDirectoryEntry` takes. -/
structure FirstFree (fs : FAT32Driver) (V : View) (d i : Nat) : Prop where
  lt : i < fs.slotsPerCluster
  free : (V.entry ⟨d, i⟩).isFree = true
  before : ∀ j < i, (V.entry ⟨d, j⟩).isFree = false

/-- The slots of a cluster before one of them. -/
def slotsBefore (d i : Nat) : List Slot := (List.range' 0 i).map (Slot.mk d)

section Searches

variable {fs : FAT32Driver} {V : View} {d i : Nat} {ds : List Nat} {e : DirectoryEntry}
  {name : List Byte} {t : Slot} {ss ts : List Slot}

theorem FirstFree.unique {j : Nat} (h : FirstFree fs V d i) (h' : FirstFree fs V d j) : i = j := by
  rcases Nat.lt_trichotomy i j with hlt | heq | hlt
  · exact absurd h.free (by rw [h'.before i hlt]; decide)
  · exact heq
  · exact absurd h'.free (by rw [h.before j hlt]; decide)

namespace FirstFree

/-- A slot that a search looks at is another one. -/
theorem ne_of_live (h : FirstFree fs V d i) (ht : t ∈ V.live ss) : t ≠ ⟨d, i⟩ := by
  rintro rfl
  have hlive := isLive_of_mem_live ht
  rw [isLive_of_isFree h.free] at hlive
  cases hlive

variable (h : FirstFree fs V d i) (hc : ClusterChain fs V d ds)
include h hc

theorem split : ∃ post, fs.slots ds = slotsBefore d i ++ ⟨d, i⟩ :: post ∧
    (∀ t ∈ slotsBefore d i, t ≠ ⟨d, i⟩ ∧ (V.entry t).first ≠ 0) ∧ ∀ t ∈ post, t ≠ ⟨d, i⟩ := by
  obtain ⟨rest, rfl⟩ : ∃ rest, ds = d :: rest := List.head?_eq_some_iff.mp hc.head?_eq
  obtain ⟨post, hsplit⟩ := slots_split (d := d) h.lt rest
  have hnd : (fs.slots (d :: rest)).Nodup := nodup_slots hc.nodup
  rw [hsplit, List.nodup_append, List.nodup_cons] at hnd
  refine ⟨post, hsplit, fun t ht => ⟨hnd.2.2 t ht _ List.mem_cons_self, ?_⟩, fun t ht => ?_⟩
  · obtain ⟨j, hj, rfl⟩ := List.mem_map.mp ht
    rw [List.mem_range'_1] at hj
    exact first_of_not_isFree (h.before j (by omega))
  · rintro rfl
    exact hnd.2.1.1 ht

/-- What is not found in the directory is not found before the slot. -/
theorem find_none (hnone : V.find name (fs.slots ds) = none) :
    V.find name (slotsBefore d i) = none := by
  obtain ⟨post, hsplit, hpre, -⟩ := h.split hc
  rw [hsplit, find_append fun t ht => (hpre t ht).2, Option.or_eq_none_iff] at hnone
  exact hnone.1

variable (he : e.length = 32) (hlive : e.isLive = true)
include he hlive

/-- What a search finds: what was before the new entry, the entry if it has the name, or else
what is behind it. -/
theorem find_setSlot (name : List Byte) : ∃ post, fs.slots ds = slotsBefore d i ++ ⟨d, i⟩ :: post ∧
    V.find name (fs.slots ds) = (V.find name (slotsBefore d i)).or (V.find name (⟨d, i⟩ :: post)) ∧
    (V.setSlot ⟨d, i⟩ e).find name (fs.slots ds) = (V.find name (slotsBefore d i)).or
      (if isNameEqual e.name name then some ⟨d, i⟩ else V.find name post) := by
  obtain ⟨post, hsplit, hpre, hpost⟩ := h.split hc
  obtain ⟨hself, hothers⟩ := entry_setSlot V ⟨d, i⟩ he
  have hpre' : ∀ t ∈ slotsBefore d i, ((V.setSlot ⟨d, i⟩ e).entry t).first ≠ 0 := fun t ht => by
    rw [hothers t (hpre t ht).1]
    exact (hpre t ht).2
  refine ⟨post, hsplit, ?_, ?_⟩
  · rw [hsplit, find_append fun t ht => (hpre t ht).2]
  · rw [hsplit, find_append hpre', find_congr name fun t ht => hothers t (hpre t ht).1]
    congr 1
    have hrest := find_congr name fun t ht => hothers t (hpost t ht)
    rw [View.find, View.live, hself, if_neg (first_of_isLive hlive), if_pos hlive,
      List.find?_cons, hself, ← hrest]
    cases isNameEqual e.name name <;> rfl

/-- The new entry is found when no entry before it has the name. -/
theorem find_new (hname : isNameEqual e.name name = true)
    (hnone : V.find name (slotsBefore d i) = none) :
    (V.setSlot ⟨d, i⟩ e).find name (fs.slots ds) = some ⟨d, i⟩ := by
  obtain ⟨post, -, -, hnew⟩ := h.find_setSlot hc he hlive name
  rw [hnew, hnone, hname, Option.none_or, if_pos rfl]

/-- What is before the new entry is found as it was. -/
theorem find_before (hsome : V.find name (slotsBefore d i) ≠ none) :
    (V.setSlot ⟨d, i⟩ e).find name (fs.slots ds) = V.find name (fs.slots ds) := by
  obtain ⟨post, -, hold, hnew⟩ := h.find_setSlot hc he hlive name
  obtain ⟨t, ht⟩ := Option.ne_none_iff_exists'.mp hsome
  rw [hold, hnew, ht, Option.some_or, Option.some_or]

/-- What has another name is found as it was. -/
theorem find_other (hended : V.Ended (fs.slots ds)) (hname : isNameEqual e.name name = false) :
    (V.setSlot ⟨d, i⟩ e).find name (fs.slots ds) = V.find name (fs.slots ds) := by
  obtain ⟨post, hsplit, hold, hnew⟩ := h.find_setSlot hc he hlive name
  rw [hsplit] at hended
  have hzero := (List.pairwise_cons.mp (List.pairwise_append.mp hended).2.1).1
  rw [hold, hnew, hname, if_neg Bool.false_ne_true]
  congr 1
  rw [View.find, View.find, live_cons fun h0 t ht => hzero t ht h0, isLive_of_isFree h.free]
  rfl

end FirstFree

end Searches

section Frames

variable {fs : FAT32Driver} {dev : BlockDevice} {U V W : View} {s : Slot} {cs ds new : List Nat}
  {c d : Nat} {name : List Byte}

theorem Within.of_same (h : ∀ x, V.fat x ≠ 0 → W.fat x = V.fat x ∧ W.data x = V.data x) :
    Within fs V [] W where
  same := fun x hx _ => h x hx
  chain := fun _ hc => by cases hc

/-- The chain of a cluster stays, and only its data changes. -/
theorem Within.of_one (hc : ClusterChain fs V c [c]) (hfat : W.fat c = V.fat c)
    (h : ∀ x, V.fat x ≠ 0 → x ≠ c → W.fat x = V.fat x ∧ W.data x = V.data x) :
    Within fs V [c] W where
  same := fun x hx hne => h x hx (fun heq => hne (heq ▸ List.mem_singleton_self x))
  chain := fun b hb => by
    obtain rfl : c = b := Option.some.inj hb
    refine ⟨[], ?_, fun x hx => by cases hx⟩
    refine hc.congr fun x hx => ?_
    rw [View.next, View.next, List.mem_singleton.mp hx, hfat]

theorem Within.trans_free (h : Within fs U [] V) (h' : Within fs V cs W)
    (hfree : ∀ x ∈ cs, U.fat x = 0) : Within fs U [] W := by
  refine .of_same fun x hx => ?_
  obtain ⟨hfat, hdata⟩ := h.same x hx List.not_mem_nil
  obtain ⟨hfat', hdata'⟩ := h'.same x (hfat ▸ hx) fun hcs => hx (hfree x hcs)
  exact ⟨hfat'.trans hfat, hdata'.trans hdata⟩

theorem Within.setSlot (h : Within fs V [] W) (hs : V.fat s.cluster ≠ 0) (e : DirectoryEntry) :
    Within fs (V.setSlot s e) [] (W.setSlot s e) := by
  refine .of_same fun x hx => ?_
  obtain ⟨hfat, hdata⟩ := h.same x hx List.not_mem_nil
  refine ⟨hfat, ?_⟩
  rw [View.setSlot, View.setSlot, (h.same _ hs List.not_mem_nil).2]
  by_cases hxs : x = s.cluster
  · rw [hxs, View.setData_data_self, View.setData_data_self]
  · rw [View.setData_data_of_ne _ hxs, View.setData_data_of_ne _ hxs, hdata]

/-- A chain in use stays. -/
theorem Within.chain_of (h : Within fs V [] W) (hc : ClusterChain fs V c cs) :
    ClusterChain fs W c cs :=
  hc.congr fun x hx => by
    rw [View.next, View.next, (h.same x (fat_ne_zero hc hx) List.not_mem_nil).1]

theorem Within.entry_of (h : Within fs V [] W) (hc : ClusterChain fs V d ds) :
    ∀ s ∈ fs.slots ds, W.entry s = V.entry s := fun _ hs =>
  entry_congr (h.same _ (fat_ne_zero hc (mem_slots.mp hs).1) List.not_mem_nil).2

/-- A search through clusters in use. -/
theorem Within.lookup (h : Within fs V [] (fs.view dev.store)) (name : List Byte)
    (hc : ClusterChain fs V d ds) (hshort : ds.take 10001 = ds) :
      fs.findSlot dev name d = V.find name (fs.slots ds) ∧
      ∀ s ∈ fs.slots ds, fs.slotEntry dev s = V.entry s := by
  have hc' := h.chain_of hc
  refine ⟨?_, fun s hs => (slotEntry_eq hc' hs).trans (h.entry_of hc s hs)⟩
  rw [findSlot_eq hc', hshort, find_congr name (h.entry_of hc)]

end Frames

section Calls

variable {fs : FAT32Driver} {dev dev₁ : BlockDevice} {name : List Byte} {data : Buffer}
  {first size parentCluster : Nat} {attr : Byte} {ds new : List Nat}

/-- What happens to a directory that is to get a new entry. -/
def Enters (fs : FAT32Driver) (V V' : View) (d : Nat) (e : DirectoryEntry) : Prop :=
  (¬FreeSlot fs V d ∧ Within fs V [] V') ∨
    ∃ i, FirstFree fs V d i ∧ Within fs (V.setSlot ⟨d, i⟩ e) [] V'

/-- `AddDirectoryEntry` after clusters were taken. -/
theorem addDirectoryEntry_enters (hgeo : Geometry fs)
    (hg : Lengthens fs (fs.view dev.store) (fs.view dev₁.store) [] new)
    (hc : ClusterChain fs (fs.view dev.store) (fs.directoryOf parentCluster) ds)
    (hname : name.length = 11) :
    let dev' := fs.addDirectoryEntry dev₁ name first size attr parentCluster
    Enters fs (fs.view dev.store) (fs.view dev'.store) (fs.directoryOf parentCluster)
        (.create name first size attr) ∧
      (fs.view dev'.store).fat = (fs.view dev₁.store).fat ∧
      ∀ x, x ≠ fs.directoryOf parentCluster →
        (fs.view dev'.store).data x = (fs.view dev₁.store).data x := by
  intro dev'
  obtain ⟨h2, -, -, h32⟩ := ClusterChain.lt hc hc.head_mem
  have huse := fat_ne_zero hc hc.head_mem
  have hentry (j : Nat) : (fs.view dev₁.store).entry ⟨fs.directoryOf parentCluster, j⟩ =
      (fs.view dev.store).entry ⟨fs.directoryOf parentCluster, j⟩ :=
    entry_congr (hg.within.same _ huse List.not_mem_nil).2
  rcases @addDirectoryEntry_eq fs dev₁ _ name first size parentCluster attr rfl h2 h32 with
    ⟨heq, hfull⟩ | ⟨i, hi, hfree, hbefore, heq⟩
  · rw [show dev' = dev₁ from heq]
    refine ⟨Or.inl ⟨?_, hg.within⟩, rfl, fun _ _ => rfl⟩
    rintro ⟨j, hj, hfree⟩
    rw [← hentry, hfull j hj] at hfree
    cases hfree
  · obtain ⟨hview, -⟩ := @writeSlot_view fs (fun _ => True) _ hgeo dev₁
      ⟨fs.directoryOf parentCluster, i⟩ h2 h32 hi _
      (DirectoryEntry.length_create hname first size attr) fun k hk => read_cluster dev₁ h2 h32 hk
    rw [← heq] at hview
    rw [show fs.view dev'.store = _ from hview]
    refine ⟨Or.inr ⟨i, ⟨hi, hentry i ▸ hfree, fun j hj => hentry j ▸ hbefore j hj⟩,
      hg.within.setSlot huse _⟩, rfl, fun x hx => View.setData_data_of_ne _ hx _⟩

/-- A directory in a cluster that was free. -/
structure NewDirectory (fs : FAT32Driver) (V V' : View) (d : Nat) (name : List Byte) (c : Nat) :
    Prop where
  was_free : V.fat c = 0
  empty : EmptyDirectory fs V' c
  ended : V'.Ended (fs.slots [c])
  slot : FreeSlot fs V' c
  room : V'.freeClusters.length + 1 = V.freeClusters.length
  enters : Enters fs V V' d (.create name c 0 0x10#8)

/-- `CreateDirectory` in a cluster in use. -/
theorem createDirectory_new (hgeo : Geometry fs)
    (hc : ClusterChain fs (fs.view dev.store) (fs.directoryOf parentCluster) ds)
    (hname : name.length = 11) :
    (fs.createDirectory dev name parentCluster = (0, dev) ∧
      (fs.view dev.store).freeClusters = []) ∨
    ∃ c dev', fs.createDirectory dev name parentCluster = (c, dev') ∧
      NewDirectory fs (fs.view dev.store) (fs.view dev'.store) (fs.directoryOf parentCluster) name
        c := by
  rcases @createDirectory_cases fs dev name parentCluster hgeo with
    ⟨heq, hfull⟩ | ⟨c, dev₁, hg, -, hdata, heq⟩
  · exact Or.inl ⟨heq, diskFull_iff.mp hfull⟩
  obtain ⟨henters, hfat, hothers⟩ := @addDirectoryEntry_enters fs dev dev₁ name c 0 parentCluster
    0x10#8 ds [c] hgeo hg hc hname
  have hfree := (hg.free c (List.mem_singleton_self c)).2.2
  have hne : c ≠ fs.directoryOf parentCluster := by
    rintro rfl
    exact fat_ne_zero hc hc.head_mem hfree
  have hdots (k : Nat) (hk : k < fs.clusterBytes) :
      (fs.view (fs.addDirectoryEntry dev₁ name c 0 0x10#8 parentCluster).store).data c k =
        dotEntries c parentCluster k := by
    rw [hothers c hne, hdata k hk]
  have htwo : 2 < fs.slotsPerCluster := by
    have := hgeo.secPerClus_pos
    rw [slotsPerCluster]
    omega
  refine Or.inr ⟨c, _, heq, hfree,
    ⟨(hg.chain c rfl).congr fun x _ => ?_, (dotEntries_empty hdots).2⟩, (dotEntries_empty hdots).1,
    ⟨2, htwo, dotEntries_free hdots htwo⟩, ?_, henters⟩
  · rw [View.next, View.next, hfat]
  · rw [← hg.length_freeClusters, View.freeClusters, hfat]
    rfl

/-- The data of a file, in the clusters of its entry. -/
def HasData (fs : FAT32Driver) (V : View) (first : Nat) (data : Buffer) (size : Nat) : Prop :=
  ∃ cs, ClusterChain fs V first cs ∧ fs.clustersFor size = cs.length ∧ Stored fs V data size cs

/-- `WriteFile` in a cluster in use. -/
theorem writeFile_new (hgeo : Geometry fs)
    (hc : ClusterChain fs (fs.view dev.store) (fs.directoryOf parentCluster) ds)
    (hname : name.length = 11) (hsize : size ≠ 0) :
    let dev' := fs.writeFile dev name data size parentCluster
    ((fs.view dev.store).freeClusters.length < fs.clustersFor size ∧
      Within fs (fs.view dev.store) [] (fs.view dev'.store)) ∨
    (fs.clustersFor size ≤ (fs.view dev.store).freeClusters.length ∧
      ∃ first < 2 ^ 32, HasData fs (fs.view dev'.store) first data size ∧
        Enters fs (fs.view dev.store) (fs.view dev'.store) (fs.directoryOf parentCluster)
          (.create name first size 0x20#8)) := by
  intro dev'
  obtain ⟨new, dev₁, hg, -, ⟨heq, hlen, hfull⟩ | ⟨first, hfirst, hlen, hstored, heq⟩⟩ :=
    @writeFile_cases fs dev name data size parentCluster hgeo hsize
  · refine Or.inl ⟨?_, (show dev' = dev₁ from heq) ▸ hg.within⟩
    exact (hg.freeClusters_le (fun x hx => by cases hx) hfull).trans_lt hlen
  · obtain ⟨henters, hfat, hothers⟩ := @addDirectoryEntry_enters fs dev dev₁ name first size
      parentCluster 0x20#8 ds new hgeo hg hc hname
    rw [← heq] at henters hfat hothers
    have hlt := (hg.lt (List.mem_of_head? hfirst)).2.2.2
    refine Or.inr ⟨hlen ▸ hg.length_le_freeClusters, first, hlt,
      ⟨new, (hg.chain first hfirst).congr fun x _ => ?_, hlen.symm, hstored.congr fun x hx => ?_⟩,
      henters⟩
    · rw [View.next, View.next, hfat]
    · refine hothers x ?_
      rintro rfl
      exact fat_ne_zero hc hc.head_mem (hg.free _ hx).2.2

end Calls

end Sylphia
