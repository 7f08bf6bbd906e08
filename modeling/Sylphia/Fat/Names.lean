import Sylphia.Fat.WellFormed

/-!
# Names in a directory

`WriteFile` and `CreateDirectory` make an entry without a look at those there are. As long
as every new entry has a name of its own, a search finds the only entry of a name.
-/

namespace Sylphia

open Bytes WriteLog Chain FAT32Driver

/-- No two live slots have entries with one name. -/
def View.NamesApart (V : View) (ss : List Slot) : Prop :=
  ∀ s ∈ V.live ss, ∀ t ∈ V.live ss, (V.entry s).name = (V.entry t).name → s = t

/-- No directory has two live entries with one name. -/
def NamesUnique (fs : FAT32Driver) (V : View) : Prop :=
  ∀ d ds, IsDirectory fs V d → ClusterChain fs V d ds → V.NamesApart (fs.slots ds)

/-- A sound volume whose directories have unique names and one cluster each. -/
structure NamedVolume (fs : FAT32Driver) (V : View) : Prop where
  sound : SoundVolume fs V
  unique : NamesUnique fs V
  single : ∀ d ds, IsDirectory fs V d → ClusterChain fs V d ds → ds = [d]

/-- A directory that has only `.` and `..`. -/
structure EmptyDirectory (fs : FAT32Driver) (V : View) (d : Nat) : Prop where
  chain : ClusterChain fs V d [d]
  live : ∀ t ∈ V.live (fs.slots [d]), (V.entry t).isDot = true

/-- A cluster in use that nobody owns: what is left of a directory when there was no slot
for its entry. -/
structure Stray (fs : FAT32Driver) (V : View) (d : Nat) : Prop where
  chain : ClusterChain fs V d [d]
  apart : ∀ o b cs, Owns fs V o b → ClusterChain fs V b cs → d ∉ cs

section Invariant

variable {fs : FAT32Driver} {V V' : View} {d : Nat} {ds : List Nat} {ss pre post : List Slot}
  {s : Slot}

theorem View.NamesApart.congr (h : V.NamesApart ss) (he : ∀ s ∈ ss, V'.entry s = V.entry s) :
    V'.NamesApart ss := by
  intro s hs t ht hname
  rw [live_congr he] at hs ht
  rw [he s (live_subset V _ s hs), he t (live_subset V _ t ht)] at hname
  exact h s hs t ht hname

theorem NamedVolume.directory_chain (h : NamedVolume fs V) (hd : IsDirectory fs V d) :
    ClusterChain fs V d [d] := by
  obtain ⟨ds, hc⟩ := h.sound.directory_chain hd
  rwa [h.single d ds hd hc] at hc

/-- A change outside of the directories. -/
theorem NamedVolume.of_same (h : NamedVolume fs V) (hv : SoundVolume fs V')
    (hsame : SameDirectories fs V V') : NamedVolume fs V' := by
  have hback {d : Nat} {ds : List Nat} (hd : IsDirectory fs V' d) (hc : ClusterChain fs V' d ds) :
      IsDirectory fs V d ∧ ClusterChain fs V d ds := by
    rw [hsame.isDirectory_iff h.sound] at hd
    obtain ⟨ds₀, hc₀⟩ := h.sound.directory_chain hd
    obtain rfl := ((hsame d ds₀ hd hc₀).1).unique hc
    exact ⟨hd, hc₀⟩
  refine ⟨hv, fun d ds hd hc => ?_, fun d ds hd hc => ?_⟩
  · obtain ⟨hd, hc⟩ := hback hd hc
    exact (h.unique d ds hd hc).congr fun s hs => hsame.entry hd hc hs
  · obtain ⟨hd, hc⟩ := hback hd hc
    exact h.single d ds hd hc

/-- The slot that changes keeps its name or gets one that is new. -/
private theorem namesApart_changed (h : NamedVolume fs V)
    (hs : SlotChange fs V V' d ds pre s post) :
    V'.NamesApart (fs.slots ds) := by
  have hother {t : Slot} (ht : t ∈ V.live (fs.slots ds)) (hts : t ≠ s) :
      V'.entry t = V.entry t := hs.others t hts (mem_slots.mp (live_subset V _ t ht)).2
  have hname {t : Slot} (hl : (V'.entry s).isLive = true) (ht : t ∈ V.live (fs.slots ds))
      (hts : t ≠ s) : (V.entry t).name ≠ (V'.entry s).name := by
    rcases hs.name hl with ⟨hl', hsame⟩ | habsent
    · intro heq
      have hmem : s ∈ V.live (fs.slots ds) := by
        rw [(hs.live_eq h.sound).1, if_pos hl']
        simp
      exact hts (h.unique d ds hs.directory hs.chain t ht s hmem (heq.trans hsame))
    · exact habsent t ht
  intro t ht u hu heq
  rcases (hs.mem_live_iff h.sound).mp ht with ⟨hts, ht⟩ | ⟨rfl, hl⟩
  · rw [hother ht hts] at heq
    rcases (hs.mem_live_iff h.sound).mp hu with ⟨hus, hu⟩ | ⟨rfl, hl⟩
    · rw [hother hu hus] at heq
      exact h.unique d ds hs.directory hs.chain t ht u hu heq
    · exact absurd heq (hname hl ht hts)
  · rcases (hs.mem_live_iff h.sound).mp hu with ⟨hus, hu⟩ | ⟨rfl, -⟩
    · rw [hother hu hus] at heq
      exact absurd heq.symm (hname hl hu hus)
    · rfl

/-- A change of a slot; a directory that it makes has unique names. -/
theorem NamedVolume.of_change (h : NamedVolume fs V) (hs : SlotChange fs V V' d ds pre s post)
    (hnew : (V'.entry s).owner = true → (V'.entry s).isDirectory = true →
      ClusterChain fs V (V'.entry s).firstCluster [(V'.entry s).firstCluster] ∧
        V.NamesApart (fs.slots [(V'.entry s).firstCluster])) : NamedVolume fs V' := by
  refine ⟨hs.sound h.sound, fun d' ds' hd' hc' => ?_, fun d' ds' hd' hc' => ?_⟩
  all_goals
    rw [hs.chain_iff] at hc'
    rcases hs.isDirectory_cases h.sound (hs.back h.sound) hd' with hd' | ⟨howner, hdir, h0, rfl⟩
  · by_cases hdd : d' = d
    · subst hdd
      obtain rfl := hc'.unique hs.chain
      exact namesApart_changed h hs
    · exact (h.unique d' ds' hd' hc').congr fun u hu =>
        hs.entry_other (hs.not_mem_other h.sound hd' hc' hdd) hu
  · obtain ⟨hc, hapart⟩ := hnew howner hdir
    obtain ⟨cs, hcs, hown, -⟩ := hs.owns howner h0
    have hnot := hs.new_apart howner hown
    obtain rfl := hc'.unique hcs
    obtain rfl := hc'.unique hc
    exact hapart.congr fun u hu => hs.entry_other hnot hu
  · exact h.single d' ds' hd' hc'
  · exact hc'.unique (hnew howner hdir).1

end Invariant

/-! ## Calls -/

section Calls

variable {fs : FAT32Driver} {dev dev₁ : BlockDevice} {V : View} {name : List Byte} {data : Buffer}
  {c q first size parentCluster : Nat} {attr : Byte} {new : List Nat}

theorem namesApart_dotEntries (hdata : ∀ k < fs.clusterBytes, V.data c k = dotEntries c q k) :
    V.NamesApart (fs.slots [c]) := by
  intro s hs t ht heq
  obtain ⟨hsc, hs⟩ := live_dotEntries hdata hs
  obtain ⟨htc, ht⟩ := live_dotEntries hdata ht
  have hindex : s.index = t.index := by
    rcases hs with ⟨hsi, hs⟩ | ⟨hsi, hs⟩ <;> rcases ht with ⟨hti, ht⟩ | ⟨hti, ht⟩
    · exact hsi.trans hti.symm
    · rw [hs, ht] at heq
      exact absurd heq (by decide)
    · rw [hs, ht] at heq
      exact absurd heq (by decide)
    · exact hsi.trans hti.symm
  obtain ⟨_, _⟩ := s
  obtain ⟨_, _⟩ := t
  exact congrArg₂ Slot.mk (hsc.trans htc.symm) hindex

/-- Where a new entry may go: to a directory, under a name that is new there, or to a cluster
that nobody owns. -/
def MayAdd (fs : FAT32Driver) (V : View) (d : Nat) (name : List Byte) : Prop :=
  (IsDirectory fs V d ∧ FatCall.NewName fs V d name) ∨ (Stray fs V d ∧ name.length = 11)

/-- The clusters for a new entry, which for a directory is one with `.` and `..`. -/
def DotCluster (fs : FAT32Driver) (V : View) (new : List Nat) (first : Nat) : Prop :=
  new = [first] ∧ ∃ q, ∀ k < fs.clusterBytes, V.data first k = dotEntries first q k

section AddEntry

variable (hgeo : Geometry fs) (h : NamedVolume fs (fs.view dev.store))
  (hg : Lengthens fs (fs.view dev.store) (fs.view dev₁.store) [] new)
  (hfirst : new.head? = some first)
  (hdir : attr &&& 0x10#8 ≠ 0 → DotCluster fs (fs.view dev₁.store) new first)
include hgeo h hg

/-- An entry in a cluster that nobody owns. -/
theorem addEntry_stray (hd : Stray fs (fs.view dev.store) (fs.directoryOf parentCluster))
    (hname : name.length = 11) (first size : Nat) (attr : Byte) :
    let V' := fs.view (fs.addDirectoryEntry dev₁ name first size attr parentCluster).store
    SoundVolume fs V' ∧ SameDirectories fs (fs.view dev.store) V' ∧
      V'.fat = (fs.view dev₁.store).fat ∧
      ∀ x, x ≠ fs.directoryOf parentCluster → V'.data x = (fs.view dev₁.store).data x := by
  intro V'
  obtain ⟨h2, -, -, h32⟩ := ClusterChain.lt hd.chain hd.chain.head_mem
  have hview : V'.fat = (fs.view dev₁.store).fat ∧
      ∀ x, x ≠ fs.directoryOf parentCluster → V'.data x = (fs.view dev₁.store).data x := by
    rcases @addDirectoryEntry_eq fs dev₁ _ name first size parentCluster attr rfl h2 h32 with
      ⟨heq, -⟩ | ⟨i, hi, -, -, heq⟩
    · rw [show V' = fs.view dev₁.store from congrArg (fun dev => fs.view dev.store) heq]
      exact ⟨rfl, fun _ _ => rfl⟩
    · obtain ⟨hview, -⟩ := @writeSlot_view fs (fun _ => True) _ hgeo dev₁
        ⟨fs.directoryOf parentCluster, i⟩ h2 h32 hi _
        (DirectoryEntry.length_create hname first size attr) fun k hk => read_cluster dev₁ h2 h32 hk
      rw [← heq] at hview
      rw [show V' = _ from hview]
      exact ⟨rfl, fun x hx => View.setData_data_of_ne _ hx _⟩
  have hkeep (o : Owner) (b : Nat) (cs : List Nat) (ho : Owns fs (fs.view dev.store) o b)
      (hc : ClusterChain fs (fs.view dev.store) b cs) (x : Nat) (hx : x ∈ cs) :
      V'.fat x = (fs.view dev.store).fat x ∧ V'.data x = (fs.view dev.store).data x := by
    obtain ⟨hfat, hdata⟩ := hg.within.same x (fat_ne_zero hc hx) (by simp)
    have hxd : x ≠ fs.directoryOf parentCluster := by
      rintro rfl
      exact hd.apart o b cs ho hc hx
    exact ⟨(congrFun hview.1 x).trans hfat, (hview.2 x hxd).trans hdata⟩
  obtain ⟨hv', hsame, -⟩ := h.sound.frame (T := none) (fun t ht => by cases ht)
    (fun o b cs ho _ => hkeep o b cs ho) fun t _ _ ht => by cases ht
  exact ⟨hv', hsame, hview⟩

include hfirst hdir

theorem addEntry_named (hadd : MayAdd fs (fs.view dev.store) (fs.directoryOf parentCluster) name)
    (size : Nat) : NamedVolume fs
      (fs.view (fs.addDirectoryEntry dev₁ name first size attr parentCluster).store) := by
  obtain ⟨hv₁, hsame, -⟩ := hg.within.frame_none h.sound
  have h₁ := h.of_same hv₁ hsame
  rcases hadd with ⟨hd, hname⟩ | ⟨hd, hname⟩
  · have hempty (ha : attr &&& 0x10#8 ≠ 0) : (fs.view dev₁.store).Ended (fs.slots new) ∧
        ∀ t ∈ (fs.view dev₁.store).live (fs.slots new),
          ((fs.view dev₁.store).entry t).isDot = true := by
      obtain ⟨hone, q, hdata⟩ := hdir ha
      rw [hone]
      exact dotEntries_empty hdata
    obtain ⟨ds, -, ⟨heq, -⟩ | ⟨i, -, -, hpub⟩⟩ :=
      addEntry_cases hgeo h.sound hg hd hname hfirst hempty size
    · rw [heq]
      exact h₁
    · obtain ⟨pre, post, hchange⟩ := hpub.change
      refine h₁.of_change hchange.toSlotChange fun _ hisdir => ?_
      have hlt := (hg.lt (List.mem_of_head? hfirst)).2.2.2
      rw [hpub.view, (entry_setSlot _ _ hpub.length).1] at hisdir ⊢
      rw [DirectoryEntry.isDirectory, DirectoryEntry.attr_create hname.length, bne_iff_ne] at hisdir
      obtain ⟨rfl, q, hdata⟩ := hdir hisdir
      rw [DirectoryEntry.firstCluster_create hname.length hlt]
      exact ⟨hg.chain first rfl, namesApart_dotEntries hdata⟩
  · obtain ⟨hv', hsame', -⟩ := addEntry_stray hgeo h hg hd hname first size attr
    exact h.of_same hv' hsame'

end AddEntry

theorem writeFile_named (hgeo : Geometry fs) (h : NamedVolume fs (fs.view dev.store))
    (hadd : MayAdd fs (fs.view dev.store) (fs.directoryOf parentCluster) name) :
    NamedVolume fs (fs.view (fs.writeFile dev name data size parentCluster).store) := by
  by_cases hsize : size = 0
  · rw [writeFile_empty hsize]
    exact h
  · obtain ⟨new, dev₁, hg, -, ⟨heq, -⟩ | ⟨first, hfirst, -, -, heq⟩⟩ :=
      @writeFile_cases fs dev name data size parentCluster hgeo hsize
    · obtain ⟨hv₁, hsame, -⟩ := hg.within.frame_none h.sound
      rw [heq]
      exact h.of_same hv₁ hsame
    · rw [heq]
      exact addEntry_named hgeo h hg hfirst (fun ha => absurd rfl ha) hadd size

theorem createDirectory_named (hgeo : Geometry fs) (h : NamedVolume fs (fs.view dev.store))
    (hadd : MayAdd fs (fs.view dev.store) (fs.directoryOf parentCluster) name) :
    NamedVolume fs (fs.view (fs.createDirectory dev name parentCluster).2.store) := by
  rcases @createDirectory_cases fs dev name parentCluster hgeo with
    ⟨heq, -⟩ | ⟨c, dev₁, hg, -, hdata, heq⟩
  · rw [heq]
    exact h
  · rw [heq]
    exact addEntry_named hgeo h hg rfl (fun _ => ⟨rfl, _, hdata⟩) hadd 0

section NewDirectory

variable {V' : View}

/-- A cluster that was free belongs to no owner as long as the directories are the same. -/
theorem Stray.of_free (hv : SoundVolume fs V) (hsame : SameDirectories fs V V')
    (hkeep : ∀ x, V.fat x ≠ 0 → V'.fat x = V.fat x) (hfree : V.fat c = 0)
    (hc : ClusterChain fs V' c [c]) : Stray fs V' c := by
  refine ⟨hc, fun o b cs ho hcs hmem => ?_⟩
  rw [hsame.owns_iff hv] at ho
  obtain ⟨cs₀, hcs₀⟩ := hv.chains o b ho
  have hkept : ClusterChain fs V' b cs₀ := hcs₀.congr fun x hx => by
    rw [View.next, View.next, hkeep x (fat_ne_zero hcs₀ hx)]
  exact fat_ne_zero hcs₀ (hkept.unique hcs ▸ hmem) hfree

/-- A directory whose entry is in a slot. -/
theorem Published.isDirectory {d i : Nat} {ds : List Nat}
    (hpub : Published fs V V' d i ds (.create name c size 0x10#8)) (hv : SoundVolume fs V)
    (hname : name.length = 11) (hfirst : name.getD 0 0 ≠ 0 ∧ name.getD 0 0 ≠ 0xE5#8)
    (hdot : ¬DotName name) (h0 : c ≠ 0) (h32 : c < 2 ^ 32) : IsDirectory fs V' c := by
  obtain ⟨pre, post, hchange⟩ := hpub.change
  have hentry : V'.entry ⟨d, i⟩ = .create name c size 0x10#8 := by
    rw [hpub.view]
    exact (entry_setSlot V ⟨d, i⟩ hpub.length).1
  have howner := @owner_create name c size 0x10#8 hname hfirst hdot (by decide)
  rw [DirectoryEntry.owner, Bool.and_eq_true, Bool.not_eq_true'] at howner
  have hlive : (⟨d, i⟩ : Slot) ∈ V'.live (fs.slots ds) := by
    refine (hchange.mem_live_iff hv).mpr (Or.inr ⟨rfl, ?_⟩)
    rw [hentry]
    exact howner.1
  have hc := @DirectoryEntry.firstCluster_create name c size 0x10#8 hname h32
  have hsub := IsDirectory.sub (hchange.isDirectory_of hv hchange.directory)
    (hchange.chain_iff.mpr hchange.chain) hlive
  rw [hentry, hc] at hsub
  exact hsub (DirectoryEntry.isDirectory_create hname c size) howner.2 h0

end NewDirectory

/-- The cluster that `CreateDirectory` gives is that of an empty directory, or nobody's. -/
theorem createDirectory_empty (hgeo : Geometry fs) (h : NamedVolume fs (fs.view dev.store))
    (hadd : MayAdd fs (fs.view dev.store) (fs.directoryOf parentCluster) name)
    (hdot : ¬DotName name) (h0 : (fs.createDirectory dev name parentCluster).1 ≠ 0) :
    let V' := fs.view (fs.createDirectory dev name parentCluster).2.store
    let c := (fs.createDirectory dev name parentCluster).1
    EmptyDirectory fs V' c ∧ (IsDirectory fs V' c ∨ Stray fs V' c) := by
  rcases @createDirectory_cases fs dev name parentCluster hgeo with
    ⟨heq, -⟩ | ⟨c, dev₁, hg, -, hdata, heq⟩
  · rw [heq] at h0
    exact absurd rfl h0
  · rw [heq]
    dsimp only
    obtain ⟨hv₁, hsame, -⟩ := hg.within.frame_none h.sound
    obtain ⟨h2, -, -, h32⟩ := hg.lt (show c ∈ [] ++ [c] by simp)
    have hfree : (fs.view dev.store).fat c = 0 := (hg.free c (by simp)).2.2
    have hkeep (x : Nat) (hx : (fs.view dev.store).fat x ≠ 0) :
        (fs.view dev₁.store).fat x = (fs.view dev.store).fat x :=
      (hg.within.same x hx (by simp)).1
    -- Whatever is done to the parent, the cluster has what was written there.
    have hempty {V' : View} (hfat : V'.fat = (fs.view dev₁.store).fat)
        (hc : V'.data c = (fs.view dev₁.store).data c) : EmptyDirectory fs V' c := by
      refine ⟨(hg.chain c rfl).congr fun x _ => by rw [View.next, View.next, hfat], ?_⟩
      exact (dotEntries_empty fun k hk => (congrFun hc k).trans (hdata k hk)).2
    have hne (hparent : (fs.view dev.store).fat (fs.directoryOf parentCluster) ≠ 0) :
        c ≠ fs.directoryOf parentCluster := by
      rintro rfl
      exact hparent hfree
    rcases hadd with ⟨hd, hname⟩ | ⟨hd, hname⟩
    · obtain ⟨ds, hds, ⟨hfull, -⟩ | ⟨i, -, -, hpub⟩⟩ := addEntry_cases hgeo h.sound hg hd hname rfl
        (fun _ => dotEntries_empty hdata) 0
      · rw [hfull]
        have he := hempty rfl rfl
        exact ⟨he, Or.inr (.of_free h.sound hsame hkeep hfree he.chain)⟩
      · refine ⟨hempty ?_ ?_, Or.inl
          (hpub.isDirectory hv₁ hname.length hname.first hdot (by omega) h32)⟩
        · rw [hpub.view]
          rfl
        · rw [hpub.view]
          exact View.setData_data_of_ne _ (hne (fat_ne_zero hds hds.head_mem)) _
    · obtain ⟨hv', hsame', hfat, hother⟩ := addEntry_stray hgeo h hg hd hname c 0 0x10#8
      have he := hempty hfat (hother c (hne (fat_ne_zero hd.chain (by simp))))
      exact ⟨he, Or.inr (.of_free h.sound hsame'
        (fun x hx => (congrFun hfat x).trans (hkeep x hx)) hfree he.chain)⟩

/-- `AppendFile` for a file, or for a name that is new in the form in which it is written. -/
theorem appendFile_named {name : CString} (data : Buffer) (size : Nat) (hgeo : Geometry fs)
    (h : NamedVolume fs (fs.view dev.store))
    (hd : IsDirectory fs (fs.view dev.store) (fs.directoryOf parentCluster))
    (hfile : ∀ s, fs.findSlot dev name.chars parentCluster = some s →
      ((fs.view dev.store).entry s).isDirectory = false)
    (hnew : fs.findSlot dev name.chars parentCluster = none →
      FatCall.NewName fs (fs.view dev.store) (fs.directoryOf parentCluster) name.eleven) :
    ∃ dev', fs.appendFile dev name data size parentCluster = some dev' ∧
      NamedVolume fs (fs.view dev'.store) := by
  cases hs : fs.findSlot dev name.chars parentCluster with
  | none =>
    by_cases hsize : size = 0
    · exact ⟨dev, if_pos hsize, h⟩
    · exact ⟨_, appendFile_new hsize hs,
        writeFile_named hgeo h (Or.inl ⟨hd, hnew hs⟩)⟩
  | some s =>
    rcases appendFile_updated data size hgeo h.sound hd hs (hfile s hs) with
      heq | ⟨dev', V₁, d, ds, pre, post, heq, hv₁, hsame, -, hchange, hregular⟩
    · exact ⟨dev, heq, h⟩
    · refine ⟨dev', heq, (h.of_same hv₁ hsame).of_change hchange.toSlotChange fun _ hdir => ?_⟩
      rw [hregular] at hdir
      cases hdir

theorem deleteFile_named (name : List Byte) (hgeo : Geometry fs)
    (h : NamedVolume fs (fs.view dev.store))
    (hd : IsDirectory fs (fs.view dev.store) (fs.directoryOf parentCluster)) :
    ∃ b dev', fs.deleteFile dev name parentCluster = some (b, dev') ∧
      NamedVolume fs (fs.view dev'.store) := by
  cases hs : (fs.searchLoop dev name loopBound (fs.directoryOf parentCluster)).join with
  | none =>
    have hc := h.directory_chain hd
    rcases @deleteFile_cases fs dev name _ parentCluster _ hgeo h.sound rfl hd hc with
      ⟨-, heq⟩ | ⟨s, -, -, hfind, -⟩
    · exact ⟨false, dev, heq, h⟩
    · rw [searchLoop_eq hc (h.sound.ended _ _ hd hc) (ClusterChain.length_lt hc), hfind] at hs
      cases hs
  | some s =>
    obtain ⟨ds, cs, dev', heq, -, hremoved⟩ := deleteFile_removed hgeo h.sound hd hs
    obtain ⟨pre, post, hchange⟩ := hremoved.change
    obtain ⟨hv', hsame, -⟩ := hremoved.frame h.sound
    refine ⟨true, dev', heq, (h.of_change hchange fun howner => ?_).of_same hv' hsame⟩
    rw [owner_delete] at howner
    cases howner

end Calls

end Sylphia
