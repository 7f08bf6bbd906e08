import Sylphia.Core.FileTree
import Sylphia.Fat.Append
import Sylphia.Fat.Names

/-!
# The file tree of a volume

What the directories of a volume show: under each path of names a directory, or a file with its
bytes. A change of one slot of a directory is a change of the tree under one name.
-/

namespace Sylphia

open Bytes Chain FAT32Driver FileTree

/-- A file tree whose names are those of directory entries. -/
abbrev VolumeTree := Tree (List Byte) (List Byte)

section Paths

variable (fs : FAT32Driver) (V : View)

/-- The directory that a path of names leads to. -/
inductive DirectoryAt : List (List Byte) → Nat → Prop
  | root : DirectoryAt [] fs.rootClus
  | sub {p : List (List Byte)} {d : Nat} {ds : List Nat} {s : Slot} : DirectoryAt p d →
      ClusterChain fs V d ds → s ∈ V.live (fs.slots ds) → (V.entry s).isDot = false →
      (V.entry s).isDirectory = true → (V.entry s).firstCluster ≠ 0 →
      DirectoryAt (p ++ [(V.entry s).name]) (V.entry s).firstCluster

/-- The directory of the path has a live entry in the slot, other than `.` and `..`. -/
def EntryAt (p : List (List Byte)) (s : Slot) : Prop :=
  ∃ d ds, DirectoryAt fs V p d ∧ ClusterChain fs V d ds ∧ s ∈ V.live (fs.slots ds) ∧
    (V.entry s).isDot = false

/-- The bytes of a file, which are in its clusters. -/
def Contents (e : DirectoryEntry) (b : List Byte) : Prop :=
  b.length = e.fileSize ∧ (e.fileSize ≠ 0 → ∃ cs, ClusterChain fs V e.firstCluster cs ∧
    fs.clustersFor e.fileSize ≤ cs.length ∧ b = slice (chainBuffer fs V cs) 0 e.fileSize)

/-- What an entry stands for. -/
inductive EntryNode (e : DirectoryEntry) : Node (List Byte) → Prop
  | directory : e.isDirectory = true → e.firstCluster ≠ 0 → e.fileSize = 0 → EntryNode e .directory
  | file {b : List Byte} : e.isDirectory = false → Contents fs V e b → EntryNode e (.file b)

/-- What the volume has under a path. -/
inductive Shows : List (List Byte) → Node (List Byte) → Prop
  | root : Shows [] .directory
  | entry {p : List (List Byte)} {s : Slot} {n : Node (List Byte)} : EntryAt fs V p s →
      EntryNode fs V (V.entry s) n → Shows (p ++ [(V.entry s).name]) n

/-- The tree has what the volume has, and every entry of the volume is in it. -/
structure Represents (t : VolumeTree) : Prop where
  shows : ∀ p n, Shows fs V p n ↔ t.node p = some n
  stands : ∀ p s, EntryAt fs V p s → ∃ n, EntryNode fs V (V.entry s) n

end Paths

section Unique

variable {fs : FAT32Driver} {V : View} {p q : List (List Byte)} {s s' : Slot} {c d : Nat}
  {ds : List Nat} {n n' : Node (List Byte)} {e : DirectoryEntry} {x : List Byte} {t t' : VolumeTree}

theorem DirectoryAt.isDirectory (h : DirectoryAt fs V p d) : IsDirectory fs V d := by
  induction h with
  | root => exact .root
  | sub _ hc hs hdot hdir h0 ih => exact .sub ih hc hs hdir hdot h0

theorem EntryAt.listed (h : EntryAt fs V p s) : Listed fs V s := by
  obtain ⟨d, ds, hd, hc, hs, hdot⟩ := h
  exact ⟨d, ds, hd.isDirectory, hc, hs, hdot⟩

theorem directoryAt_nil : DirectoryAt fs V [] c ↔ c = fs.rootClus := by
  constructor
  · intro h
    generalize hp : ([] : List (List Byte)) = p at h
    cases h with
    | root => rfl
    | sub => simp at hp
  · rintro rfl
    exact .root

/-- The last name of a path. -/
theorem directoryAt_concat : DirectoryAt fs V (p ++ [x]) c ↔
    ∃ s, EntryAt fs V p s ∧ (V.entry s).name = x ∧ (V.entry s).isDirectory = true ∧
      (V.entry s).firstCluster = c ∧ c ≠ 0 := by
  constructor
  · intro h
    generalize hq : p ++ [x] = q at h
    cases h with
    | root => simp at hq
    | sub hd hc hs hdot hdir h0 =>
      obtain ⟨rfl, hx⟩ := List.append_inj' hq rfl
      exact ⟨_, ⟨_, _, hd, hc, hs, hdot⟩, (List.singleton_inj.mp hx).symm, hdir, rfl, h0⟩
  · rintro ⟨s, ⟨d, ds, hd, hc, hs, hdot⟩, rfl, hdir, rfl, h0⟩
    exact .sub hd hc hs hdot hdir h0

theorem shows_nil : Shows fs V [] n ↔ n = .directory := by
  constructor
  · intro h
    generalize hp : ([] : List (List Byte)) = p at h
    cases h with
    | root => rfl
    | entry => simp at hp
  · rintro rfl
    exact .root

theorem shows_concat : Shows fs V (p ++ [x]) n ↔
    ∃ s, EntryAt fs V p s ∧ (V.entry s).name = x ∧ EntryNode fs V (V.entry s) n := by
  constructor
  · intro h
    generalize hq : p ++ [x] = q at h
    cases h with
    | root => simp at hq
    | entry hs hn =>
      obtain ⟨rfl, hx⟩ := List.append_inj' hq rfl
      exact ⟨_, hs, (List.singleton_inj.mp hx).symm, hn⟩
  · rintro ⟨s, hs, rfl, hn⟩
    exact .entry hs hn

/-- What is shown as a directory is one. -/
theorem Shows.directory (h : Shows fs V p .directory) : ∃ d, DirectoryAt fs V p d := by
  rcases List.eq_nil_or_concat' p with rfl | ⟨p, x, rfl⟩
  · exact ⟨_, .root⟩
  · obtain ⟨s, hs, hx, hn⟩ := shows_concat.mp h
    cases hn with
    | directory hdir h0 _ => exact ⟨_, directoryAt_concat.mpr ⟨s, hs, hx, hdir, rfl, h0⟩⟩

/-- The chain of an owner tells who it is. -/
theorem SoundVolume.owner_unique (hv : SoundVolume fs V) {o o' : Owner} (h : Owns fs V o c)
    (h' : Owns fs V o' c) : o = o' := by
  obtain ⟨cs, hcs⟩ := hv.chains o c h
  by_contra hne
  exact hv.disjoint o o' c c cs cs h h' hne hcs hcs c hcs.head_mem hcs.head_mem

/-- One path leads to a directory. -/
theorem DirectoryAt.path_unique (hv : SoundVolume fs V) (h : DirectoryAt fs V p d)
    (h' : DirectoryAt fs V q d) : p = q := by
  induction h generalizing q with
  | root =>
    generalize hd : fs.rootClus = d at h'
    cases h' with
    | root => rfl
    | @sub q d ds s hq hc hs hdot hdir h0 =>
      have hown : Owns fs V (.slot s) (V.entry s).firstCluster :=
        ⟨⟨d, ds, hq.isDirectory, hc, hs, hdot⟩, rfl, h0⟩
      cases hv.owner_unique (show Owns fs V .root _ from hd.symm) hown
  | @sub p d ds s hp hc hs hdot hdir h0 ih =>
    have hown : Owns fs V (.slot s) (V.entry s).firstCluster :=
      ⟨⟨d, ds, hp.isDirectory, hc, hs, hdot⟩, rfl, h0⟩
    generalize (V.entry s).firstCluster = c at h' hown
    cases h' with
    | root => cases hv.owner_unique (show Owns fs V .root _ from rfl) hown
    | @sub q d' ds' s' hq hc' hs' hdot' hdir' h0' =>
      have hown' : Owns fs V (.slot s') (V.entry s').firstCluster :=
        ⟨⟨d', ds', hq.isDirectory, hc', hs', hdot'⟩, rfl, h0'⟩
      obtain rfl := Owner.slot.inj (hv.owner_unique hown hown')
      obtain rfl := hv.directory_unique hp.isDirectory hq.isDirectory hc hc'
        (mem_slots.mp (live_subset V _ s hs)).1 (mem_slots.mp (live_subset V _ s hs')).1
      rw [ih hq]

/-- A slot is in the directory of one path. -/
theorem EntryAt.path_unique (hv : SoundVolume fs V) (h : EntryAt fs V p s) (h' : EntryAt fs V q s) :
    p = q := by
  obtain ⟨d, ds, hd, hc, hs, -⟩ := h
  obtain ⟨d', ds', hd', hc', hs', -⟩ := h'
  obtain rfl := hv.directory_unique hd.isDirectory hd'.isDirectory hc hc'
    (mem_slots.mp (live_subset V _ s hs)).1 (mem_slots.mp (live_subset V _ s hs')).1
  exact hd.path_unique hv hd'

/-- Names in a directory are unique, and so paths lead to one place. -/
theorem DirectoryAt.unique (hnames : NamesUnique fs V) (h : DirectoryAt fs V p c)
    (h' : DirectoryAt fs V p d) : c = d := by
  induction p using List.reverseRecOn generalizing c d with
  | nil => rw [directoryAt_nil.mp h, directoryAt_nil.mp h']
  | append_singleton p x ih =>
    obtain ⟨s, ⟨b, bs, hb, hbs, hs, -⟩, hx, -, rfl, -⟩ := directoryAt_concat.mp h
    obtain ⟨s', ⟨b', bs', hb', hbs', hs', -⟩, hx', -, rfl, -⟩ := directoryAt_concat.mp h'
    obtain rfl := ih hb hb'
    obtain rfl := hbs.unique hbs'
    rw [hnames b bs hb.isDirectory hbs s hs s' hs' (hx.trans hx'.symm)]

theorem EntryAt.unique (hnames : NamesUnique fs V) (h : EntryAt fs V p s) (h' : EntryAt fs V p s')
    (hname : (V.entry s).name = (V.entry s').name) : s = s' := by
  obtain ⟨d, ds, hd, hc, hs, -⟩ := h
  obtain ⟨d', ds', hd', hc', hs', -⟩ := h'
  obtain rfl := hd.unique hnames hd'
  obtain rfl := hc.unique hc'
  exact hnames d ds hd.isDirectory hc s hs s' hs' hname

theorem Contents.unique {b b' : List Byte} (h : Contents fs V e b) (h' : Contents fs V e b') :
    b = b' := by
  by_cases h0 : e.fileSize = 0
  · rw [List.length_eq_zero_iff.mp (h.1.trans h0), List.length_eq_zero_iff.mp (h'.1.trans h0)]
  · obtain ⟨cs, hcs, -, hb⟩ := h.2 h0
    obtain ⟨cs', hcs', -, hb'⟩ := h'.2 h0
    rw [hb, hb', hcs.unique hcs']

theorem EntryNode.unique (h : EntryNode fs V e n) (h' : EntryNode fs V e n') : n = n' := by
  cases h with
  | directory hdir =>
    cases h' with
    | directory => rfl
    | file hfile _ =>
      rw [hdir] at hfile
      cases hfile
  | file hfile hb =>
    cases h' with
    | directory hdir =>
      rw [hdir] at hfile
      cases hfile
    | file _ hb' => rw [hb.unique hb']

/-- A volume shows one thing under a path. -/
theorem Shows.unique (hnames : NamesUnique fs V) (h : Shows fs V p n) (h' : Shows fs V p n') :
    n = n' := by
  rcases List.eq_nil_or_concat' p with rfl | ⟨p, x, rfl⟩
  · rw [shows_nil.mp h, shows_nil.mp h']
  · obtain ⟨s, hs, hx, hn⟩ := shows_concat.mp h
    obtain ⟨s', hs', hx', hn'⟩ := shows_concat.mp h'
    obtain rfl := hs.unique hnames hs' (hx.trans hx'.symm)
    exact hn.unique hn'

theorem Represents.unique (h : Represents fs V t) (h' : Represents fs V t') : t = t' := by
  ext p n
  rw [← h.shows p n, ← h'.shows p n]

/-- The names that a directory does not have. -/
theorem Represents.absent_iff (h : Represents fs V t) :
    t.node (p ++ [x]) = none ↔ ∀ s, EntryAt fs V p s → (V.entry s).name ≠ x := by
  constructor
  · rintro hnone s hs rfl
    obtain ⟨n, hn⟩ := h.stands p s hs
    rw [(h.shows _ n).mp (.entry hs hn)] at hnone
    cases hnone
  · intro habsent
    by_contra hsome
    obtain ⟨n, hn⟩ := Option.ne_none_iff_exists'.mp hsome
    obtain ⟨s, hs, hx, -⟩ := shows_concat.mp ((h.shows _ n).mpr hn)
    exact habsent s hs hx

end Unique

/-! ## Changes outside of the directories -/

section Frame

variable {fs : FAT32Driver} {V V' : View} {p : List (List Byte)} {s : Slot} {d : Nat}
  {cs : List Nat} {T : Option Slot} {e : DirectoryEntry} {b : List Byte} {t : VolumeTree}

namespace SameDirectories

theorem directoryAt_iff (h : SameDirectories fs V V') (hv : SoundVolume fs V) :
    DirectoryAt fs V' p d ↔ DirectoryAt fs V p d := by
  constructor
  · intro hd
    induction hd with
    | root => exact .root
    | @sub p d ds s _ hc hs hdot hdir h0 ih =>
      obtain ⟨ds₀, hc₀⟩ := hv.directory_chain ih.isDirectory
      obtain rfl := ((h d ds₀ ih.isDirectory hc₀).1).unique hc
      rw [h.live_eq ih.isDirectory hc₀] at hs
      rw [h.entry ih.isDirectory hc₀ (live_subset V _ s hs)] at hdot hdir h0 ⊢
      exact .sub ih hc₀ hs hdot hdir h0
  · intro hd
    induction hd with
    | root => exact .root
    | @sub p d ds s hd hc hs hdot hdir h0 ih =>
      have he := h.entry hd.isDirectory hc (live_subset V _ s hs)
      rw [← h.live_eq hd.isDirectory hc] at hs
      rw [← he] at hdot hdir h0 ⊢
      exact .sub ih (h d ds hd.isDirectory hc).1 hs hdot hdir h0

theorem entryAt_iff (h : SameDirectories fs V V') (hv : SoundVolume fs V) :
    EntryAt fs V' p s ↔ EntryAt fs V p s := by
  constructor
  · rintro ⟨d, ds, hd, hc, hs, hdot⟩
    rw [h.directoryAt_iff hv] at hd
    obtain ⟨ds₀, hc₀⟩ := hv.directory_chain hd.isDirectory
    obtain rfl := ((h d ds₀ hd.isDirectory hc₀).1).unique hc
    rw [h.live_eq hd.isDirectory hc₀] at hs
    rw [h.entry hd.isDirectory hc₀ (live_subset V _ s hs)] at hdot
    exact ⟨d, ds₀, hd, hc₀, hs, hdot⟩
  · rintro ⟨d, ds, hd, hc, hs, hdot⟩
    rw [← h.entry hd.isDirectory hc (live_subset V _ s hs)] at hdot
    rw [← h.live_eq hd.isDirectory hc] at hs
    exact ⟨d, ds, (h.directoryAt_iff hv).mpr hd, (h d ds hd.isDirectory hc).1, hs, hdot⟩

end SameDirectories

/-- The clusters of a file have room for it. -/
theorem div_lt_clustersFor (hgeo : Geometry fs) {k size : Nat} (hk : k < size) :
    k / fs.clusterBytes < fs.clustersFor size := by
  have hpos := clusterBytes_pos hgeo
  rw [clustersFor, Nat.lt_iff_add_one_le, Nat.le_div_iff_mul_le hpos, Nat.add_mul, Nat.one_mul]
  have := Nat.div_mul_le_self k fs.clusterBytes
  omega

/-- The bytes of a file are seen through its clusters only. -/
theorem contents_congr (hgeo : Geometry fs) (hc : ClusterChain fs V e.firstCluster cs)
    (hc' : ClusterChain fs V' e.firstCluster cs) (hdata : ∀ x ∈ cs, V'.data x = V.data x) :
    Contents fs V' e b ↔ Contents fs V e b := by
  have hbytes (hlen : fs.clustersFor e.fileSize ≤ cs.length) :
      slice (chainBuffer fs V' cs) 0 e.fileSize = slice (chainBuffer fs V cs) 0 e.fileSize := by
    refine slice_congr fun k hk => ?_
    have hlt := (div_lt_clustersFor hgeo hk).trans_le hlen
    rw [Nat.zero_add, chainBuffer, chainBuffer, List.getD_eq_getElem?_getD,
      List.getElem?_eq_getElem hlt, Option.getD_some, hdata _ (List.getElem_mem hlt)]
  refine and_congr_right fun _ => imp_congr_right fun _ => ⟨?_, ?_⟩
  · rintro ⟨cs', hcs', hlen, rfl⟩
    obtain rfl := hcs'.unique hc'
    exact ⟨cs', hc, hlen, hbytes hlen⟩
  · rintro ⟨cs', hcs', hlen, rfl⟩
    obtain rfl := hcs'.unique hc
    exact ⟨cs', hc', hlen, (hbytes hlen).symm⟩

/-- The bytes of a file that is kept. -/
theorem Kept.contents_iff (hk : Kept fs T V V') (hgeo : Geometry fs) (hv : SoundVolume fs V)
    (hs : Listed fs V s) (hT : T ≠ some s) (hfile : (V.entry s).isDirectory = false) :
    Contents fs V' (V.entry s) b ↔ Contents fs V (V.entry s) b := by
  by_cases h0 : (V.entry s).fileSize = 0
  · rw [Contents, Contents]
    simp only [h0, ne_eq, not_true, false_implies]
  · have hfirst := hv.sized s hs hfile (Nat.pos_of_ne_zero h0)
    obtain ⟨cs, hcs⟩ := hv.chains (.slot s) _ ⟨hs, rfl, hfirst⟩
    obtain ⟨-, -, hcs', hdata⟩ := hk.files s cs hs hT hfile hcs
    exact contents_congr hgeo hcs hcs' hdata

/-- What an entry that is kept stands for. -/
theorem Kept.entryNode_iff {n : Node (List Byte)} (hk : Kept fs T V V') (hgeo : Geometry fs)
    (hv : SoundVolume fs V) (hs : Listed fs V s) (hT : T ≠ some s) :
    EntryNode fs V' (V.entry s) n ↔ EntryNode fs V (V.entry s) n := by
  constructor
  · rintro (⟨hdir, h0, hsize⟩ | ⟨hfile, hb⟩)
    · exact .directory hdir h0 hsize
    · exact .file hfile ((hk.contents_iff hgeo hv hs hT hfile).mp hb)
  · rintro (⟨hdir, h0, hsize⟩ | ⟨hfile, hb⟩)
    · exact .directory hdir h0 hsize
    · exact .file hfile ((hk.contents_iff hgeo hv hs hT hfile).mpr hb)

/-- The tree has what the volume has under all paths but one. -/
structure RepresentsBut (fs : FAT32Driver) (V : View) (path : List (List Byte)) (t : VolumeTree) :
    Prop where
  shows : ∀ p n, p ≠ path → (Shows fs V p n ↔ t.node p = some n)
  stands : ∀ p s, p ++ [(V.entry s).name] ≠ path → EntryAt fs V p s →
    ∃ n, EntryNode fs V (V.entry s) n

theorem Represents.but (h : Represents fs V t) (path : List (List Byte)) :
    RepresentsBut fs V path t := ⟨fun p n _ => h.shows p n, fun p s _ => h.stands p s⟩

/-- The directories that do not go through the path. -/
theorem RepresentsBut.directory {path : List (List Byte)} (h : RepresentsBut fs V path t)
    (hd : DirectoryAt fs V p d) (hne : p ≠ path) : t.node p = some .directory := by
  rcases List.eq_nil_or_concat' p with rfl | ⟨p, x, rfl⟩
  · exact t.root
  · obtain ⟨s, hs, rfl, hdir, -, -⟩ := directoryAt_concat.mp hd
    obtain ⟨n, hn⟩ := h.stands p s hne hs
    rw [← h.shows _ _ hne, shows_concat]
    refine ⟨s, hs, rfl, ?_⟩
    cases hn with
    | directory hdir h0 hsize => exact .directory hdir h0 hsize
    | file hfile _ =>
      rw [hdir] at hfile
      cases hfile

/-- The directories of the tree. -/
theorem Represents.directory_iff (h : Represents fs V t) :
    t.node p = some .directory ↔ ∃ d, DirectoryAt fs V p d := by
  refine ⟨fun hn => ((h.shows p _).mpr hn).directory, ?_⟩
  rintro ⟨d, hd⟩
  exact (h.but (p ++ [[]])).directory hd (by simp)

/-- With the directories a path shows the same when its entry stands for the same. -/
theorem SameDirectories.shows_iff {n : Node (List Byte)} (h : SameDirectories fs V V')
    (hv : SoundVolume fs V) (hnode : ∀ q s, EntryAt fs V q s → q ++ [(V.entry s).name] = p →
      (EntryNode fs V' (V.entry s) n ↔ EntryNode fs V (V.entry s) n)) :
    Shows fs V' p n ↔ Shows fs V p n := by
  rcases List.eq_nil_or_concat' p with rfl | ⟨q, x, rfl⟩
  · rw [shows_nil, shows_nil]
  · rw [shows_concat, shows_concat]
    refine exists_congr fun s => ?_
    rw [h.entryAt_iff hv]
    refine and_congr_right fun hs => ?_
    rw [h.listed_entry hs.listed]
    exact and_congr_right fun hx => hnode q s hs (by rw [hx])

/-- With the directories and the other files the tree stays, save for one path. -/
theorem RepresentsBut.frame {path : List (List Byte)} (h : RepresentsBut fs V path t)
    (hgeo : Geometry fs) (hv : SoundVolume fs V) (hsame : SameDirectories fs V V')
    (hk : Kept fs T V V')
    (hT : ∀ s q, T = some s → EntryAt fs V q s → q ++ [(V.entry s).name] = path) :
    RepresentsBut fs V' path t := by
  have hnode (q : List (List Byte)) (s : Slot) (n : Node (List Byte)) (hs : EntryAt fs V q s)
      (hne : q ++ [(V.entry s).name] ≠ path) :
      EntryNode fs V' (V.entry s) n ↔ EntryNode fs V (V.entry s) n :=
    hk.entryNode_iff hgeo hv hs.listed fun heq => hne (hT s q heq hs)
  refine ⟨fun p n hne => ?_, fun p s hne hs => ?_⟩
  · rw [← h.shows p n hne]
    exact hsame.shows_iff hv fun q s hs hq => hnode q s n hs (hq ▸ hne)
  · rw [hsame.entryAt_iff hv] at hs
    rw [hsame.listed_entry hs.listed] at hne ⊢
    obtain ⟨n, hn⟩ := h.stands p s hne hs
    exact ⟨n, (hnode p s n hs hne).mpr hn⟩

/-- With the directories and what the entries stand for the tree stays. -/
private theorem Represents.of_entryNode_iff (h : Represents fs V t) (hv : SoundVolume fs V)
    (hsame : SameDirectories fs V V') (hnode : ∀ q s n, EntryAt fs V q s →
      (EntryNode fs V' (V.entry s) n ↔ EntryNode fs V (V.entry s) n)) : Represents fs V' t := by
  refine ⟨fun p n => ?_, fun p s hs => ?_⟩
  · rw [← h.shows p n]
    exact hsame.shows_iff hv fun q s hs _ => hnode q s n hs
  · rw [hsame.entryAt_iff hv] at hs
    rw [hsame.listed_entry hs.listed]
    obtain ⟨n, hn⟩ := h.stands p s hs
    exact ⟨n, (hnode p s n hs).mpr hn⟩

/-- With the directories and the files the tree stays. -/
theorem Represents.frame (h : Represents fs V t) (hgeo : Geometry fs) (hv : SoundVolume fs V)
    (hsame : SameDirectories fs V V') (hk : Kept fs none V V') : Represents fs V' t :=
  h.of_entryNode_iff hv hsame fun _ s _ hs =>
    hk.entryNode_iff hgeo hv hs.listed (Option.some_ne_none s).symm

/-- With the bytes of the file that it is about a change leaves the tree. -/
theorem Represents.frame_file (h : Represents fs V t) (hgeo : Geometry fs) (hv : SoundVolume fs V)
    (hsame : SameDirectories fs V V') (hk : Kept fs (some s) V V')
    (hfile : (V.entry s).isDirectory = false) (hb : Contents fs V (V.entry s) b)
    (hb' : Contents fs V' (V.entry s) b) : Represents fs V' t := by
  refine h.of_entryNode_iff hv hsame fun q u n hu => ?_
  by_cases hus : u = s
  · subst hus
    constructor
    · intro hn
      rw [hn.unique (.file hfile hb')]
      exact .file hfile hb
    · intro hn
      rw [hn.unique (.file hfile hb)]
      exact .file hfile hb'
  · exact hk.entryNode_iff hgeo hv hu.listed fun heq => hus (Option.some.inj heq).symm

end Frame

/-! ## Changes of a slot -/

namespace SlotUpdate

variable {fs : FAT32Driver} {V V' : View} {p q : List (List Byte)} {s u : Slot} {c d : Nat}
  {ds : List Nat} {pre post : List Slot} {x : List Byte} {v : Option (Node (List Byte))}
  {t : VolumeTree} {n : Node (List Byte)}

/-- The directory that the new entry makes. -/
def Makes (V' : View) (s : Slot) (p q : List (List Byte)) (c : Nat) : Prop :=
  (V'.entry s).owner = true ∧ (V'.entry s).isDirectory = true ∧ (V'.entry s).firstCluster = c ∧
    c ≠ 0 ∧ q = p ++ [(V'.entry s).name]

/-- What is under the name of the slot is a file, if it is anything. -/
theorem isLeaf (h : SlotUpdate fs V V' d ds pre s post) (ht : Represents fs V t)
    (hslot : ∀ u, EntryAt fs V p u → (u = s ↔ (V.entry u).name = x)) :
    IsLeaf (t.node (p ++ [x])) := by
  cases hn : t.node (p ++ [x]) with
  | none => trivial
  | some n =>
    obtain ⟨u, hu, hx, hnode⟩ := shows_concat.mp ((ht.shows _ _).mpr hn)
    obtain rfl := (hslot u hu).mpr hx
    cases hnode with
    | directory hdir h0 _ => exact absurd (h.keeps hu.listed.owner hdir) h0
    | file => trivial

variable (h : SlotUpdate fs V V' d ds pre s post) (hv : SoundVolume fs V)
  (hp : DirectoryAt fs V p d)
include h hv hp

/-- The slot is in the directory of the path, and in no other. -/
theorem path_of_entryAt (hs : EntryAt fs V q s) : q = p := by
  obtain ⟨d', ds', hd', hc', hs, -⟩ := hs
  obtain rfl := hv.directory_unique hd'.isDirectory h.directory hc' h.chain
    (mem_slots.mp (live_subset V _ s hs)).1 (mem_slots.mp h.mem).1
  exact hd'.path_unique hv hp

/-- The entries of a directory, when it is known which directories there are under its path. -/
private theorem entryAt_of
    (hq : ∀ c, DirectoryAt fs V' q c ↔ DirectoryAt fs V q c ∨ Makes V' s p q c) :
    EntryAt fs V' q u ↔ (u ≠ s ∧ EntryAt fs V q u) ∨
      (u = s ∧ q = p ∧ (V'.entry s).owner = true) := by
  have hother {d' : Nat} {ds' : List Nat} (hd' : IsDirectory fs V d')
      (hc' : ClusterChain fs V d' ds')
      (hne : d' ≠ d) : V'.live (fs.slots ds') = V.live (fs.slots ds') :=
    live_congr fun u hu => h.entry_other (h.not_mem_other hv hd' hc' hne) hu
  constructor
  · rintro ⟨d', ds', hd', hc', hu, hdot⟩
    rw [h.chain_iff] at hc'
    rcases (hq d').mp hd' with hd' | ⟨howner, hdir, rfl, h0, rfl⟩
    · by_cases hus : u = s
      · subst hus
        obtain rfl := hv.directory_unique hd'.isDirectory h.directory hc' h.chain
          (mem_slots.mp (live_subset V' _ u hu)).1 (mem_slots.mp h.mem).1
        refine Or.inr ⟨rfl, hd'.path_unique hv hp, ?_⟩
        rw [DirectoryEntry.owner, isLive_of_mem_live hu, hdot]
        rfl
      · rw [h.others u hus (mem_slots.mp (live_subset V' _ u hu)).2] at hdot
        refine Or.inl ⟨hus, d', ds', hd', hc', ?_, hdot⟩
        by_cases hdd : d' = d
        · subst hdd
          obtain rfl := hc'.unique h.chain
          exact h.back hv u hu hus
        · rwa [hother hd'.isDirectory hc' hdd] at hu
    · -- The new directory has only `.` and `..`.
      obtain ⟨cs, hcs, hapart, hnew⟩ := h.owns howner h0
      obtain rfl := hc'.unique hcs
      have hnot := h.new_apart howner hapart
      rw [live_congr fun w hw => h.entry_other hnot hw] at hu
      rw [h.entry_other hnot (live_subset V _ u hu), (hnew hdir).2 u hu] at hdot
      cases hdot
  · rintro (⟨hus, d', ds', hd', hc', hu, hdot⟩ | ⟨rfl, rfl, howner⟩)
    · rw [← h.others u hus (mem_slots.mp (live_subset V _ u hu)).2] at hdot
      refine ⟨d', ds', (hq d').mpr (Or.inl hd'), h.chain_iff.mpr hc', ?_, hdot⟩
      by_cases hdd : d' = d
      · subst hdd
        obtain rfl := hc'.unique h.chain
        exact (h.mem_live_iff hv).mpr (Or.inl ⟨hus, hu⟩)
      · rwa [hother hd'.isDirectory hc' hdd]
    · rw [DirectoryEntry.owner, Bool.and_eq_true, Bool.not_eq_true'] at howner
      exact ⟨d, ds, (hq d).mpr (Or.inl hp), h.chain_iff.mpr h.chain,
        (h.mem_live_iff hv).mpr (Or.inr ⟨rfl, howner.1⟩), howner.2⟩

theorem directoryAt_iff : DirectoryAt fs V' q c ↔ DirectoryAt fs V q c ∨ Makes V' s p q c := by
  induction q using List.reverseRecOn generalizing c with
  | nil =>
    rw [directoryAt_nil, directoryAt_nil]
    refine (or_iff_left ?_).symm
    rintro ⟨-, -, -, -, hnil⟩
    simp at hnil
  | append_singleton q x ih =>
    rw [directoryAt_concat, directoryAt_concat]
    simp only [h.entryAt_of hv hp fun c => ih]
    constructor
    · rintro ⟨u, ⟨hus, hu⟩ | ⟨rfl, rfl, howner⟩, rfl, hdir, rfl, h0⟩
      · have he := h.listed_entry hu.listed hus
        rw [he] at hdir h0 ⊢
        exact Or.inl ⟨u, hu, rfl, hdir, rfl, h0⟩
      · exact Or.inr ⟨howner, hdir, rfl, h0, rfl⟩
    · rintro (⟨u, hu, rfl, hdir, rfl, h0⟩ | ⟨howner, hdir, rfl, h0, heq⟩)
      · have hus : u ≠ s := by
          rintro rfl
          exact h0 (h.keeps hu.listed.owner hdir)
        have he := h.listed_entry hu.listed hus
        exact ⟨u, Or.inl ⟨hus, hu⟩, by rw [he], by rw [he]; exact hdir, by rw [he], h0⟩
      · obtain ⟨rfl, hx⟩ := List.append_inj' heq rfl
        exact ⟨s, Or.inr ⟨rfl, rfl, howner⟩, (List.singleton_inj.mp hx).symm, hdir, rfl, h0⟩

theorem entryAt_iff : EntryAt fs V' q u ↔
    (u ≠ s ∧ EntryAt fs V q u) ∨ (u = s ∧ q = p ∧ (V'.entry s).owner = true) :=
  h.entryAt_of hv hp fun _ => h.directoryAt_iff hv hp

/-- A change of a slot is a change of the tree under the name that it has or had, whatever is
under that name before. -/
theorem represents_put (ht : RepresentsBut fs V (p ++ [x]) t) (hleaf : IsLeaf (t.node (p ++ [x])))
    (hgeo : Geometry fs) (hslot : ∀ u, EntryAt fs V p u → (u = s ↔ (V.entry u).name = x))
    (hnew : ((V'.entry s).owner = false ∧ v = none) ∨ ∃ n, (V'.entry s).owner = true ∧
      (V'.entry s).name = x ∧ EntryNode fs V' (V'.entry s) n ∧ v = some n) :
    Represents fs V' (t.put p x v) := by
  have hpath : ¬IsLeaf (t.node p) := by
    rw [ht.directory hp (by simp)]
    exact id
  have hkept {q : List (List Byte)} {u : Slot} {n : Node (List Byte)} (hu : EntryAt fs V q u)
      (hus : u ≠ s) : EntryNode fs V' (V.entry u) n ↔ EntryNode fs V (V.entry u) n :=
    (h.kept hv).entryNode_iff hgeo hv hu.listed fun heq => hus (Option.some.inj heq).symm
  have hother {q : List (List Byte)} {u : Slot} (hu : EntryAt fs V q u) (hus : u ≠ s) :
      q ++ [(V.entry u).name] ≠ p ++ [x] := by
    intro heq
    obtain ⟨rfl, hx⟩ := List.append_inj' heq rfl
    exact hus ((hslot u hu).mpr (List.singleton_inj.mp hx))
  have hname (howner : (V'.entry s).owner = true) : (V'.entry s).name = x := by
    rcases hnew with ⟨hdead, -⟩ | ⟨n, -, hname, -⟩
    · rw [hdead] at howner
      cases howner
    · exact hname
  have hiff (n : Node (List Byte)) :
      (V'.entry s).owner = true ∧ EntryNode fs V' (V'.entry s) n ↔ v = some n := by
    rcases hnew with ⟨hdead, rfl⟩ | ⟨m, howner, -, hm, rfl⟩
    · rw [hdead]
      exact iff_of_false (fun hn => Bool.false_ne_true hn.1) (Option.some_ne_none n).symm
    · exact ⟨fun hn => congrArg some (hm.unique hn.2), fun hn => ⟨howner, Option.some.inj hn ▸ hm⟩⟩
  refine ⟨fun q n => ?_, fun q u hu => ?_⟩
  · rw [Tree.node_put hpath hleaf]
    rcases List.eq_nil_or_concat' q with rfl | ⟨q, y, rfl⟩
    · rw [if_neg (by simp), t.root, shows_nil, Option.some.injEq, eq_comm]
    rw [shows_concat]
    simp only [h.entryAt_iff hv hp]
    split
    · next heq =>
      obtain ⟨rfl, hyx⟩ := List.append_inj' heq rfl
      obtain rfl := List.singleton_inj.mp hyx
      rw [← hiff]
      constructor
      · rintro ⟨u, ⟨hus, hu⟩ | ⟨rfl, -, howner⟩, hx, hnode⟩
        · rw [h.listed_entry hu.listed hus] at hx
          exact absurd ((hslot u hu).mpr hx) hus
        · exact ⟨howner, hnode⟩
      · rintro ⟨howner, hnode⟩
        exact ⟨s, Or.inr ⟨rfl, rfl, howner⟩, hname howner, hnode⟩
    · next hne =>
      rw [← ht.shows _ _ hne, shows_concat]
      constructor
      · rintro ⟨u, ⟨hus, hu⟩ | ⟨rfl, rfl, howner⟩, hx, hnode⟩
        · rw [h.listed_entry hu.listed hus] at hx hnode
          exact ⟨u, hu, hx, (hkept hu hus).mp hnode⟩
        · exact absurd (by rw [← hx, hname howner]) hne
      · rintro ⟨u, hu, rfl, hnode⟩
        have hus : u ≠ s := by
          rintro rfl
          obtain rfl := h.path_of_entryAt hv hp hu
          exact hne (by rw [(hslot u hu).mp rfl])
        have he := h.listed_entry hu.listed hus
        exact ⟨u, Or.inl ⟨hus, hu⟩, by rw [he], by rw [he]; exact (hkept hu hus).mpr hnode⟩
  · rw [h.entryAt_iff hv hp] at hu
    rcases hu with ⟨hus, hu⟩ | ⟨rfl, rfl, howner⟩
    · obtain ⟨n, hn⟩ := ht.stands q u (hother hu hus) hu
      rw [h.listed_entry hu.listed hus]
      exact ⟨n, (hkept hu hus).mpr hn⟩
    · rcases hnew with ⟨hdead, -⟩ | ⟨n, -, -, hn, -⟩
      · rw [hdead] at howner
        cases howner
      · exact ⟨n, hn⟩

end SlotUpdate

end Sylphia
