import Mathlib.Data.List.Find
import Sylphia.Core.Chain
import Sylphia.Fat.View

/-!
# Sound volumes

The directory tree of a volume, the chains of clusters that its entries own, and when
these are in order. What a change of the volume leaves alone is derived from the clusters
it touches, and from the slot it touches for the changes of a directory.
-/

namespace Sylphia

open Bytes Chain

/-- The cluster numbers of a volume, and the end marks. -/
def FAT32Driver.links (fs : FAT32Driver) : Links Nat where
  valid := fun c => 2 ≤ c ∧ c < fs.fatSz32 * 128 ∧ c < endOfChain
  ends := fun x => endOfChain ≤ x
  not_ends := fun _ hv he => absurd hv.2.2 (Nat.not_lt.mpr he)

/-- The cluster after this one, as `GetNextCluster` gives it. -/
def View.next (V : View) (c : Nat) : Nat := V.fat c % 2 ^ 28

/-- The chain of clusters from `c`. -/
abbrev ClusterChain (fs : FAT32Driver) (V : View) : Nat → List Nat → Prop := IsChain fs.links V.next

/-- The entry in a slot. -/
def View.entry (V : View) (s : Slot) : DirectoryEntry := dirEntry (V.data s.cluster) s.index

/-- The slots of a directory with these clusters, in order. -/
def FAT32Driver.slots (fs : FAT32Driver) (cs : List Nat) : List Slot :=
  cs.flatMap fun c => (List.range fs.slotsPerCluster).map fun i => ⟨c, i⟩

/-- An entry that a search looks at: neither free nor part of a long name. -/
def DirectoryEntry.isLive (e : DirectoryEntry) : Bool :=
  e.first != 0 && e.first != 0xE5#8 && e.attr != 0x0F#8

/-- The entries `.` and `..`. -/
def DirectoryEntry.isDot (e : DirectoryEntry) : Bool :=
  e.name == 0x2E#8 :: List.replicate 10 0x20#8 ||
    e.name == 0x2E#8 :: 0x2E#8 :: List.replicate 9 0x20#8

/-- The live slots among these, up to the first that was never used. -/
def View.live (V : View) : List Slot → List Slot
  | [] => []
  | s :: ss =>
    if (V.entry s).first = 0 then []
    else if (V.entry s).isLive then s :: V.live ss else V.live ss

/-- The first live slot whose entry has the name. -/
def View.find (V : View) (name : List Byte) (ss : List Slot) : Option Slot :=
  (V.live ss).find? fun s => isNameEqual (V.entry s).name name

/-- Behind a slot that was never used there is no other. -/
def View.Ended (V : View) (ss : List Slot) : Prop :=
  ss.Pairwise fun s t => (V.entry s).first = 0 → (V.entry t).first = 0

section Tree

variable (fs : FAT32Driver) (V : View)

/-- The first clusters of the directories. -/
inductive IsDirectory : Nat → Prop
  | root : IsDirectory fs.rootClus
  | sub {d : Nat} {ds : List Nat} {s : Slot} : IsDirectory d → ClusterChain fs V d ds →
      s ∈ V.live (fs.slots ds) → (V.entry s).isDirectory = true → (V.entry s).isDot = false →
      (V.entry s).firstCluster ≠ 0 → IsDirectory (V.entry s).firstCluster

/-- A live slot of some directory, other than `.` and `..`. -/
def Listed (s : Slot) : Prop :=
  ∃ d ds, IsDirectory fs V d ∧ ClusterChain fs V d ds ∧ s ∈ V.live (fs.slots ds) ∧
    (V.entry s).isDot = false

/-- Who owns clusters: the root directory, and the entries. -/
inductive Owner
  | root
  | slot (s : Slot)
  deriving DecidableEq, Repr

/-- The owner of the chain that starts with a cluster. -/
def Owns : Owner → Nat → Prop
  | .root, c => c = fs.rootClus
  | .slot s, c => Listed fs V s ∧ (V.entry s).firstCluster = c ∧ c ≠ 0

/-- Chains end, no two owners share a cluster, directories are in order, and a file that
is not empty has clusters. -/
structure SoundVolume : Prop where
  chains : ∀ o c, Owns fs V o c → ∃ cs, ClusterChain fs V c cs
  disjoint : ∀ o o' c c' cs cs', Owns fs V o c → Owns fs V o' c' → o ≠ o' →
    ClusterChain fs V c cs → ClusterChain fs V c' cs' → ∀ x ∈ cs, x ∉ cs'
  ended : ∀ d ds, IsDirectory fs V d → ClusterChain fs V d ds → V.Ended (fs.slots ds)
  sized : ∀ s, Listed fs V s → (V.entry s).isDirectory = false → (V.entry s).fileSize > 0 →
    (V.entry s).firstCluster ≠ 0

end Tree

section Slots

variable {fs : FAT32Driver} {V V' : View} {s t : Slot} {ss : List Slot} {cs : List Nat}

theorem mem_slots : s ∈ fs.slots cs ↔ s.cluster ∈ cs ∧ s.index < fs.slotsPerCluster := by
  obtain ⟨c, i⟩ := s
  simp only [FAT32Driver.slots, List.mem_flatMap, List.mem_map, List.mem_range, Slot.mk.injEq]
  constructor
  · rintro ⟨x, hx, j, hj, rfl, rfl⟩
    exact ⟨hx, hj⟩
  · rintro ⟨hc, hi⟩
    exact ⟨c, hc, i, hi, rfl, rfl⟩

theorem nodup_slots (h : cs.Nodup) : (fs.slots cs).Nodup := by
  rw [FAT32Driver.slots, List.nodup_flatMap]
  refine ⟨fun c _ => ?_, h.imp fun {c c'} hne => ?_⟩
  · refine List.nodup_range.map fun i j hij => ?_
    exact congrArg Slot.index hij
  · refine List.disjoint_left.mpr fun x hx hx' => ?_
    obtain ⟨i, -, rfl⟩ := List.mem_map.mp hx
    obtain ⟨j, -, hj⟩ := List.mem_map.mp hx'
    exact hne (congrArg Slot.cluster hj).symm

theorem slots_take (fs : FAT32Driver) (cs : List Nat) (n : Nat) :
    fs.slots cs = fs.slots (cs.take n) ++ fs.slots (cs.drop n) := by
  rw [FAT32Driver.slots, FAT32Driver.slots, FAT32Driver.slots, ← List.flatMap_append,
    List.take_append_drop]

theorem live_subset (V : View) (ss : List Slot) : ∀ s ∈ V.live ss, s ∈ ss := by
  induction ss with
  | nil => exact fun s hs => hs
  | cons x ss ih =>
    intro s hs
    rw [View.live] at hs
    split at hs
    · cases hs
    · split at hs
      · rcases List.mem_cons.mp hs with rfl | hs
        · exact List.mem_cons_self ..
        · exact List.mem_cons_of_mem _ (ih s hs)
      · exact List.mem_cons_of_mem _ (ih s hs)

theorem live_of_zero (h : ∀ s ∈ ss, (V.entry s).first = 0) : V.live ss = [] := by
  cases ss with
  | nil => rfl
  | cons s ss => rw [View.live, if_pos (h s (List.mem_cons_self ..))]

theorem isLive_of_mem_live (h : s ∈ V.live ss) : (V.entry s).isLive = true := by
  induction ss with
  | nil => cases h
  | cons x ss ih =>
    rw [View.live] at h
    split at h
    · cases h
    · split at h
      · next hx =>
        rcases List.mem_cons.mp h with rfl | h
        · exact hx
        · exact ih h
      · exact ih h

theorem live_congr (h : ∀ s ∈ ss, V'.entry s = V.entry s) : V'.live ss = V.live ss := by
  induction ss with
  | nil => rfl
  | cons x ss ih =>
    rw [View.live, View.live, h x (List.mem_cons_self ..),
      ih fun s hs => h s (List.mem_cons_of_mem _ hs)]

theorem find_congr (name : List Byte) (h : ∀ s ∈ ss, V'.entry s = V.entry s) :
    V'.find name ss = V.find name ss := by
  rw [View.find, View.find, live_congr h]
  exact List.find?_congr fun s hs => by rw [h s (live_subset V ss s hs)]

theorem ended_congr (h : ∀ s ∈ ss, V'.entry s = V.entry s) (he : V.Ended ss) : V'.Ended ss := by
  refine List.Pairwise.imp_of_mem (fun {s t} hs ht hst => ?_) he
  rw [h s hs, h t ht]
  exact hst

theorem entry_congr (h : V'.data s.cluster = V.data s.cluster) : V'.entry s = V.entry s := by
  rw [View.entry, View.entry, h]

theorem first_of_isLive {e : DirectoryEntry} (h : e.isLive = true) : e.first ≠ 0 := by
  rw [DirectoryEntry.isLive, Bool.and_eq_true, Bool.and_eq_true] at h
  simpa using h.1.1

end Slots

section Frame

variable {fs : FAT32Driver} {V V' V'' : View} {T : Option Slot} {s t : Slot} {d c : Nat}
  {ds cs : List Nat}

theorem IsDirectory.owner (h : IsDirectory fs V d) :
    ∃ o, Owns fs V o d ∧ ∀ s, o = .slot s → (V.entry s).isDirectory = true := by
  cases h with
  | root => exact ⟨.root, rfl, fun _ hs => by cases hs⟩
  | @sub d ds s hd hc hs hdir hdot h0 =>
    refine ⟨.slot s, ⟨⟨d, ds, hd, hc, hs, hdot⟩, rfl, h0⟩, fun _ ht => ?_⟩
    rwa [← Owner.slot.inj ht]

theorem Owns.unique {o : Owner} {c' : Nat} (h : Owns fs V o c) (h' : Owns fs V o c') : c = c' := by
  cases o with
  | root => exact Eq.trans h (Eq.symm h')
  | slot s => exact h.2.1.symm.trans h'.2.1

namespace SoundVolume

theorem directory_chain (h : SoundVolume fs V) (hd : IsDirectory fs V d) :
    ∃ ds, ClusterChain fs V d ds := by
  obtain ⟨o, ho, -⟩ := hd.owner
  exact h.chains o d ho

/-- A cluster of one directory is in no other. -/
theorem directory_unique (h : SoundVolume fs V) {d' x : Nat} {ds' : List Nat}
    (hd : IsDirectory fs V d) (hd' : IsDirectory fs V d') (hc : ClusterChain fs V d ds)
    (hc' : ClusterChain fs V d' ds') (hx : x ∈ ds) (hx' : x ∈ ds') : d = d' := by
  obtain ⟨o, ho, -⟩ := hd.owner
  obtain ⟨o', ho', -⟩ := hd'.owner
  by_cases hoo : o = o'
  · exact ho.unique (hoo ▸ ho')
  · exact absurd hx' (h.disjoint o o' d d' ds ds' ho ho' hoo hc hc' x hx)

/-- The clusters of a file are not those of a directory. -/
theorem file_apart (h : SoundVolume fs V) {cs ds : List Nat} (hd : IsDirectory fs V d)
    (hc : ClusterChain fs V d ds) (hs : Listed fs V s) (hfile : (V.entry s).isDirectory = false)
    (hcs : ClusterChain fs V (V.entry s).firstCluster cs) : ∀ x ∈ cs, x ∉ ds := by
  obtain ⟨o, ho, hodir⟩ := hd.owner
  have h0 : (V.entry s).firstCluster ≠ 0 := by
    intro h0
    rw [h0] at hcs
    exact absurd hcs.valid_head.1 (by decide)
  have hne : Owner.slot s ≠ o := by
    rintro rfl
    rw [hodir s rfl] at hfile
    cases hfile
  exact fun x => h.disjoint (.slot s) o _ d cs ds ⟨hs, rfl, h0⟩ ho hne hcs hc x

end SoundVolume

/-- There is only the root directory, and what is in it has no clusters. -/
structure Flat (fs : FAT32Driver) (V : View) (rs : List Nat) : Prop where
  chain : ClusterChain fs V fs.rootClus rs
  ended : V.Ended (fs.slots rs)
  empty : ∀ s ∈ V.live (fs.slots rs), (V.entry s).firstCluster = 0 ∧ (V.entry s).fileSize = 0

namespace Flat

variable {rs : List Nat} (h : Flat fs V rs)
include h

theorem isDirectory (hd : IsDirectory fs V d) : d = fs.rootClus := by
  induction hd with
  | root => rfl
  | @sub d ds s _ hds hs _ _ h0 ih =>
    subst ih
    rw [hds.unique h.chain] at hs
    exact absurd (h.empty s hs).1 h0

theorem listed (hs : Listed fs V s) :
    (V.entry s).firstCluster = 0 ∧ (V.entry s).fileSize = 0 := by
  obtain ⟨d, ds, hd, hds, hs, -⟩ := hs
  obtain rfl := h.isDirectory hd
  rw [hds.unique h.chain] at hs
  exact h.empty s hs

theorem owner {o : Owner} (ho : Owns fs V o c) : o = .root ∧ c = fs.rootClus := by
  cases o with
  | root => exact ⟨rfl, ho⟩
  | slot s => exact absurd ((h.listed ho.1).1 ▸ ho.2.1.symm) ho.2.2

theorem sound : SoundVolume fs V := by
  refine ⟨fun o c ho => ?_, fun o o' c c' _ _ ho ho' hne => ?_, fun d ds hd hds => ?_,
    fun s hs _ hsize => ?_⟩
  · exact ⟨rs, (h.owner ho).2 ▸ h.chain⟩
  · exact absurd ((h.owner ho).1.trans (h.owner ho').1.symm) hne
  · obtain rfl := h.isDirectory hd
    rw [hds.unique h.chain]
    exact h.ended
  · rw [(h.listed hs).2] at hsize
    exact absurd hsize (Nat.lt_irrefl 0)

end Flat

/-- A root directory that was never used. -/
theorem flat_of_zero {rs : List Nat} (hc : ClusterChain fs V fs.rootClus rs)
    (hzero : ∀ s ∈ fs.slots rs, (V.entry s).first = 0) : Flat fs V rs := by
  refine ⟨hc, ?_, fun s hs => ?_⟩
  · exact List.Pairwise.imp_of_mem (fun _ ht _ _ => hzero _ ht)
      (List.pairwise_of_forall fun _ _ => trivial)
  · rw [live_of_zero hzero] at hs
    cases hs

/-- The directories keep their clusters and what is in them. -/
def SameDirectories (fs : FAT32Driver) (V V' : View) : Prop :=
  ∀ d ds, IsDirectory fs V d → ClusterChain fs V d ds →
    ClusterChain fs V' d ds ∧ ∀ x ∈ ds, V'.data x = V.data x

namespace SameDirectories

theorem entry (h : SameDirectories fs V V') (hd : IsDirectory fs V d)
    (hc : ClusterChain fs V d ds) (hs : s ∈ fs.slots ds) : V'.entry s = V.entry s :=
  entry_congr ((h d ds hd hc).2 _ (mem_slots.mp hs).1)

theorem live_eq (h : SameDirectories fs V V') (hd : IsDirectory fs V d)
    (hc : ClusterChain fs V d ds) : V'.live (fs.slots ds) = V.live (fs.slots ds) :=
  live_congr fun _ hs => h.entry hd hc hs

/-- The tree stays as it is. -/
theorem isDirectory_iff (h : SameDirectories fs V V') (hv : SoundVolume fs V) :
    IsDirectory fs V' d ↔ IsDirectory fs V d := by
  constructor
  · intro hd
    induction hd with
    | root => exact .root
    | @sub d ds s _ hc hs hdir hdot h0 ih =>
      obtain ⟨ds₀, hc₀⟩ := hv.directory_chain ih
      obtain rfl := ((h d ds₀ ih hc₀).1).unique hc
      rw [h.live_eq ih hc₀] at hs
      rw [h.entry ih hc₀ (live_subset V _ s hs)] at hdir hdot h0 ⊢
      exact .sub ih hc₀ hs hdir hdot h0
  · intro hd
    induction hd with
    | root => exact .root
    | @sub d ds s hd hc hs hdir hdot h0 ih =>
      have he := h.entry hd hc (live_subset V _ s hs)
      rw [← h.live_eq hd hc] at hs
      rw [← he] at hdir hdot h0 ⊢
      exact .sub ih (h d ds hd hc).1 hs hdir hdot h0

theorem listed_iff (h : SameDirectories fs V V') (hv : SoundVolume fs V) :
    Listed fs V' s ↔ Listed fs V s := by
  constructor
  · rintro ⟨d, ds, hd, hc, hs, hdot⟩
    rw [h.isDirectory_iff hv] at hd
    obtain ⟨ds₀, hc₀⟩ := hv.directory_chain hd
    obtain rfl := ((h d ds₀ hd hc₀).1).unique hc
    rw [h.live_eq hd hc₀] at hs
    rw [h.entry hd hc₀ (live_subset V _ s hs)] at hdot
    exact ⟨d, ds₀, hd, hc₀, hs, hdot⟩
  · rintro ⟨d, ds, hd, hc, hs, hdot⟩
    rw [← h.entry hd hc (live_subset V _ s hs)] at hdot
    rw [← h.live_eq hd hc] at hs
    exact ⟨d, ds, (h.isDirectory_iff hv).mpr hd, (h d ds hd hc).1, hs, hdot⟩

theorem listed_entry (h : SameDirectories fs V V') (hs : Listed fs V s) :
    V'.entry s = V.entry s := by
  obtain ⟨d, ds, hd, hc, hs, -⟩ := hs
  exact h.entry hd hc (live_subset V _ s hs)

theorem owns_iff (h : SameDirectories fs V V') (hv : SoundVolume fs V) {o : Owner} :
    Owns fs V' o c ↔ Owns fs V o c := by
  cases o with
  | root => exact Iff.rfl
  | slot s =>
    constructor
    · rintro ⟨hs, hc, h0⟩
      rw [h.listed_iff hv] at hs
      rw [h.listed_entry hs] at hc
      exact ⟨hs, hc, h0⟩
    · rintro ⟨hs, hc, h0⟩
      rw [← h.listed_entry hs] at hc
      exact ⟨(h.listed_iff hv).mpr hs, hc, h0⟩

end SameDirectories

/-- What a change leaves to everyone but the owner `T`: the directories, what a search
finds in them, and the files with their data. -/
structure Kept (fs : FAT32Driver) (T : Option Slot) (V V' : View) : Prop where
  dirs : ∀ d ds, IsDirectory fs V d → ClusterChain fs V d ds →
    IsDirectory fs V' d ∧ ClusterChain fs V' d ds
  find : ∀ d ds, IsDirectory fs V d → ClusterChain fs V d ds → ∀ n name s,
    V.find name (fs.slots (ds.take n)) = some s → T ≠ some s →
    V'.find name (fs.slots (ds.take n)) = some s ∧ V'.entry s = V.entry s
  files : ∀ s cs, Listed fs V s → T ≠ some s → (V.entry s).isDirectory = false →
    ClusterChain fs V (V.entry s).firstCluster cs →
    Listed fs V' s ∧ V'.entry s = V.entry s ∧ ClusterChain fs V' (V.entry s).firstCluster cs ∧
      ∀ x ∈ cs, V'.data x = V.data x

namespace Kept

theorem trans (h : Kept fs T V V') (h' : Kept fs T V' V'') : Kept fs T V V'' where
  dirs := fun d ds hd hc => by
    obtain ⟨hd', hc'⟩ := h.dirs d ds hd hc
    exact h'.dirs d ds hd' hc'
  find := fun d ds hd hc n name s hs hT => by
    obtain ⟨hd', hc'⟩ := h.dirs d ds hd hc
    obtain ⟨hs', he'⟩ := h.find d ds hd hc n name s hs hT
    obtain ⟨hs'', he''⟩ := h'.find d ds hd' hc' n name s hs' hT
    exact ⟨hs'', he''.trans he'⟩
  files := fun s cs hs hT hfile hc => by
    obtain ⟨hs', he', hc', hdata'⟩ := h.files s cs hs hT hfile hc
    rw [← he'] at hfile hc'
    obtain ⟨hs'', he'', hc'', hdata''⟩ := h'.files s cs hs' hT hfile hc'
    rw [he'] at hc''
    exact ⟨hs'', he''.trans he', hc'', fun x hx => (hdata'' x hx).trans (hdata' x hx)⟩

theorem mono (h : Kept fs none V V') (T : Option Slot) : Kept fs T V V' :=
  ⟨h.dirs, fun d ds hd hc n name s hs _ => h.find d ds hd hc n name s hs (by simp),
    fun s cs hs _ => h.files s cs hs (by simp)⟩

end Kept

private theorem slots_take_subset {n : Nat} (hs : s ∈ fs.slots (ds.take n)) : s ∈ fs.slots ds := by
  rw [mem_slots] at hs ⊢
  exact ⟨List.mem_of_mem_take hs.1, hs.2⟩

/-- A cluster of a chain is not free. -/
theorem fat_ne_zero {x : Nat} (hc : ClusterChain fs V c cs) (hx : x ∈ cs) : V.fat x ≠ 0 := by
  intro h0
  have hnext : V.next x = 0 := by rw [View.next, h0, Nat.zero_mod]
  obtain ⟨ds, hds, -⟩ := hc.suffix hx
  cases hds with
  | last _ he =>
    rw [hnext] at he
    exact Nat.not_succ_le_zero _ he
  | cons _ hrest =>
    rw [hnext] at hrest
    exact absurd hrest.valid_head.1 (by decide)

/-- A change that touches no cluster of an owner, save for those of the file `T`, whose
chain goes on through free clusters. -/
theorem SoundVolume.frame (hv : SoundVolume fs V)
    (hfile : ∀ t, T = some t → (V.entry t).isDirectory = false)
    (hsame : ∀ o c cs, Owns fs V o c → (∀ t, T = some t → o ≠ .slot t) → ClusterChain fs V c cs →
      ∀ x ∈ cs, V'.fat x = V.fat x ∧ V'.data x = V.data x)
    (htarget : ∀ t c cs, T = some t → Owns fs V (.slot t) c → ClusterChain fs V c cs →
      ∃ cs', ClusterChain fs V' c cs' ∧ ∀ x ∈ cs', x ∈ cs ∨ V.fat x = 0) :
    SoundVolume fs V' ∧ SameDirectories fs V V' ∧ Kept fs T V V' := by
  have hkeep {o : Owner} {c : Nat} {cs : List Nat} (ho : Owns fs V o c)
      (hT : ∀ t, T = some t → o ≠ .slot t) (hc : ClusterChain fs V c cs) :
      ClusterChain fs V' c cs :=
    hc.congr fun x hx => by rw [View.next, View.next, (hsame o c cs ho hT hc x hx).1]
  have hdirs : SameDirectories fs V V' := by
    intro d ds hd hc
    obtain ⟨o, ho, hodir⟩ := hd.owner
    have hT : ∀ t, T = some t → o ≠ .slot t := by
      rintro t ht rfl
      have := hodir t rfl
      rw [hfile t ht] at this
      cases this
    exact ⟨hkeep ho hT hc, fun x hx => (hsame o d ds ho hT hc x hx).2⟩
  have hchain {o : Owner} {c : Nat} (ho : Owns fs V o c) : ∃ cs cs', ClusterChain fs V c cs ∧
      ClusterChain fs V' c cs' ∧ ∀ x ∈ cs', x ∈ cs ∨
        V.fat x = 0 ∧ ∃ t, T = some t ∧ o = .slot t := by
    obtain ⟨cs, hc⟩ := hv.chains o c ho
    by_cases hT : ∀ t, T = some t → o ≠ .slot t
    · exact ⟨cs, cs, hc, hkeep ho hT hc, fun x hx => Or.inl hx⟩
    · simp only [not_forall, not_not] at hT
      obtain ⟨t, ht, rfl⟩ := hT
      obtain ⟨cs', hc', hfrom⟩ := htarget t c cs ht ho hc
      exact ⟨cs, cs', hc, hc', fun x hx => (hfrom x hx).imp_right fun h0 => ⟨h0, t, ht, rfl⟩⟩
  refine ⟨⟨?_, ?_, ?_, ?_⟩, hdirs, ?_, ?_, ?_⟩
  · intro o c ho
    rw [hdirs.owns_iff hv] at ho
    obtain ⟨-, cs', -, hc', -⟩ := hchain ho
    exact ⟨cs', hc'⟩
  · intro o o' c c' cs cs' ho ho' hne hc hc' x hx hx'
    rw [hdirs.owns_iff hv] at ho ho'
    obtain ⟨es, es', he, he', hfrom⟩ := hchain ho
    obtain ⟨gs, gs', hgc, hg', hfrom'⟩ := hchain ho'
    obtain rfl := he'.unique hc
    obtain rfl := hg'.unique hc'
    rcases hfrom x hx with hx | ⟨h0, t, ht, rfl⟩
    · rcases hfrom' x hx' with hx' | ⟨h0, -⟩
      · exact hv.disjoint o o' c c' es gs ho ho' hne he hgc x hx hx'
      · exact fat_ne_zero he hx h0
    · rcases hfrom' x hx' with hx' | ⟨-, t', ht', rfl⟩
      · exact fat_ne_zero hgc hx' h0
      · rw [ht, Option.some.injEq] at ht'
        exact hne (ht' ▸ rfl)
  · intro d ds hd hc
    rw [hdirs.isDirectory_iff hv] at hd
    obtain ⟨ds₀, hc₀⟩ := hv.directory_chain hd
    obtain rfl := ((hdirs d ds₀ hd hc₀).1).unique hc
    exact ended_congr (fun s hs => hdirs.entry hd hc₀ hs) (hv.ended d ds₀ hd hc₀)
  · intro s hs hregular hsize
    rw [hdirs.listed_iff hv] at hs
    rw [hdirs.listed_entry hs] at hregular hsize ⊢
    exact hv.sized s hs hregular hsize
  · intro d ds hd hc
    exact ⟨(hdirs.isDirectory_iff hv).mpr hd, (hdirs d ds hd hc).1⟩
  · intro d ds hd hc n name s hs _
    have hmem : s ∈ fs.slots (ds.take n) := live_subset V _ s (List.mem_of_find?_eq_some hs)
    rw [find_congr name fun s hs => hdirs.entry hd hc (slots_take_subset hs)]
    exact ⟨hs, hdirs.entry hd hc (slots_take_subset hmem)⟩
  · intro s cs hs hT _ hc
    have h0 : (V.entry s).firstCluster ≠ 0 := by
      intro h0
      rw [h0] at hc
      exact absurd hc.valid_head.1 (by decide)
    have ho : Owns fs V (.slot s) (V.entry s).firstCluster := ⟨hs, rfl, h0⟩
    have hspare : ∀ t, T = some t → Owner.slot s ≠ .slot t := by
      rintro t ht hst
      exact hT (ht.trans (congrArg some (Owner.slot.inj hst).symm))
    exact ⟨(hdirs.listed_iff hv).mpr hs, hdirs.listed_entry hs, hkeep ho hspare hc,
      fun x hx => (hsame _ _ cs ho hspare hc x hx).2⟩

end Frame

end Sylphia
