import Sylphia.Fat.Components

/-!
# The way back from a directory

A new directory gets an entry `..` with the cluster of its parent. `EnsureDirectory` makes
directories in the root directory by the number of its cluster, not by 0, so there the entry
is not the one of the format; and no lookup of `..` finds the entry at all.
-/

namespace Sylphia

open Bytes WriteLog Chain FAT32Driver

/-- A call of `CreateDirectory`: the device before it, the name and the parent. -/
structure Creation where
  dev : BlockDevice
  name : List Byte
  parent : Nat

namespace Creation

variable (fs : FAT32Driver) (m : Creation)

/-- The first cluster of the new directory, 0 for none. -/
def cluster : Nat := (fs.createDirectory m.dev m.name m.parent).1

/-- The device after the call. -/
def after : BlockDevice := (fs.createDirectory m.dev m.name m.parent).2

/-- The cluster in the entry `..`. -/
def parentRef : Nat := (fs.slotEntry (m.after fs) ⟨m.cluster fs, 1⟩).firstCluster

/-- The entry `..` is as the format has it. -/
def RefersToParent : Prop :=
  m.parentRef fs = if fs.directoryOf m.parent = fs.rootClus then 0 else fs.directoryOf m.parent

/-- `GetFileEntry` gets to the new directory along a path. -/
def ReachedBy (path : List Byte) (baseCluster : Nat) : Prop :=
  ∃ e, fs.getFileEntry (m.after fs) path baseCluster = some e ∧ e.isDirectory = true ∧
    e.firstCluster = m.cluster fs

/-- Behind the path, `/..` leads to the parent. -/
def LeadsBack (path : List Byte) (baseCluster : Nat) : Prop :=
  fs.getDirectoryCluster (m.after fs) (path ++ [0x2F#8, 0x2E#8, 0x2E#8]) baseCluster =
    fs.directoryOf m.parent

end Creation

namespace FAT32Driver

/-- The calls of `CreateDirectory` that `EnsureDirectory` makes along a list of names. -/
def creationsAlong (fs : FAT32Driver) : List (List Byte) → BlockDevice → Nat → List Creation
  | [], _, _ => []
  | x :: xs, dev, current =>
    match fs.findDirectoryEntry dev x current with
    | some entry => if entry.isDirectory then creationsAlong fs xs dev entry.firstCluster else []
    | none =>
      let (newCluster, dev') := fs.createDirectory dev (to83Format x) current
      ⟨dev, to83Format x, current⟩ ::
        if newCluster = 0 then [] else creationsAlong fs xs dev' newCluster

end FAT32Driver

/-- A call that makes directories. -/
inductive DirectoryCall
  | createDirectory (name : List Byte) (parentCluster : Nat)
  | ensureDirectory (path : List Byte)

namespace DirectoryCall

/-- The directories that the call makes. -/
def creations (fs : FAT32Driver) (dev : BlockDevice) : DirectoryCall → List Creation
  | createDirectory name parentCluster => [⟨dev, name, parentCluster⟩]
  | ensureDirectory path =>
    fs.creationsAlong (segments path.length (relative path)) dev fs.rootClus

/-- The caller of `CreateDirectory` gives a name of eleven characters and a directory. -/
def Allowed (fs : FAT32Driver) (dev : BlockDevice) : DirectoryCall → Prop
  | createDirectory name parentCluster =>
    name.length = 11 ∧ IsDirectory fs (fs.view dev.store) (fs.directoryOf parentCluster)
  | ensureDirectory _ => True

end DirectoryCall

section Fresh

variable {fs : FAT32Driver} {dev : BlockDevice} {name : List Byte} {ds : List Nat}
  {parentCluster current : Nat}

/-- The directory that `CreateDirectory` makes in a cluster in use has only `.` and `..`. -/
theorem createDirectory_fresh (hgeo : Geometry fs)
    (hc : ClusterChain fs (fs.view dev.store) (fs.directoryOf parentCluster) ds)
    (hname : name.length = 11) (h0 : (fs.createDirectory dev name parentCluster).1 ≠ 0) :
    let V' := fs.view (fs.createDirectory dev name parentCluster).2.store
    let c := (fs.createDirectory dev name parentCluster).1
    EmptyDirectory fs V' c ∧
      V'.entry ⟨c, 1⟩ =
        .create (0x2E#8 :: 0x2E#8 :: List.replicate 9 0x20#8) parentCluster 0 0x10#8 := by
  rcases @createDirectory_cases fs dev name parentCluster hgeo with
    ⟨heq, -⟩ | ⟨c, dev₁, hg, -, hdata, heq⟩
  · rw [heq] at h0
    exact absurd rfl h0
  · rw [heq]
    dsimp only
    obtain ⟨h2, -, -, h32⟩ := ClusterChain.lt hc hc.head_mem
    have hne : c ≠ fs.directoryOf parentCluster := by
      rintro rfl
      exact fat_ne_zero hc hc.head_mem (hg.free _ (by simp)).2.2
    have hkept : (fs.view (fs.addDirectoryEntry dev₁ name c 0 0x10#8 parentCluster).store).fat =
          (fs.view dev₁.store).fat ∧
        (fs.view (fs.addDirectoryEntry dev₁ name c 0 0x10#8 parentCluster).store).data c =
          (fs.view dev₁.store).data c := by
      rcases @addDirectoryEntry_eq fs dev₁ _ name c 0 parentCluster 0x10#8 rfl h2 h32 with
        ⟨hfull, -⟩ | ⟨i, hi, -, -, hadd⟩
      · rw [hfull]
        exact ⟨rfl, rfl⟩
      · obtain ⟨hview, -⟩ := @writeSlot_view fs (fun _ => True) _ hgeo dev₁
          ⟨fs.directoryOf parentCluster, i⟩ h2 h32 hi _
          (DirectoryEntry.length_create hname c 0 0x10#8) fun k hk => read_cluster dev₁ h2 h32 hk
        rw [hadd, hview]
        exact ⟨rfl, View.setData_data_of_ne _ hne _⟩
    have hdots (k : Nat) (hk : k < fs.clusterBytes) :
        (fs.view (fs.addDirectoryEntry dev₁ name c 0 0x10#8 parentCluster).store).data c k =
          dotEntries c parentCluster k :=
      (congrFun hkept.2 k).trans (hdata k hk)
    refine ⟨⟨(hg.chain c rfl).congr fun x _ => by rw [View.next, View.next, hkept.1],
      (dotEntries_empty hdots).2⟩, entry_dotdot hdots ?_⟩
    have := hgeo.secPerClus_pos
    rw [slotsPerCluster]
    omega

/-- Every directory is made in a cluster in use, along a way from a directory of the volume or from
one that was just made. -/
theorem creationsAlong_in_use (hgeo : Geometry fs) (names : List (List Byte))
    (hstart : (SoundVolume fs (fs.view dev.store) ∧
        IsDirectory fs (fs.view dev.store) (fs.directoryOf current)) ∨
      EmptyDirectory fs (fs.view dev.store) current) :
    ∀ m ∈ fs.creationsAlong names dev current, m.name.length = 11 ∧
      ∃ ds, ClusterChain fs (fs.view m.dev.store) (fs.directoryOf m.parent) ds := by
  induction names generalizing dev current with
  | nil =>
    intro m hm
    cases hm
  | cons x xs ih =>
    have hchain : ∃ ds, ClusterChain fs (fs.view dev.store) (fs.directoryOf current) ds := by
      rcases hstart with ⟨hv, hd⟩ | he
      · exact hv.directory_chain hd
      · rw [directoryOf_of_chain he.chain]
        exact ⟨_, he.chain⟩
    rw [creationsAlong]
    cases hfind : fs.findDirectoryEntry dev x current with
    | some entry =>
      dsimp only
      split_ifs with hdir
      · rcases hstart with ⟨hv, hd⟩ | he
        · exact ih (Or.inl ⟨hv, isDirectory_of_find hv hd hfind hdir⟩)
        · rw [he.find_none] at hfind
          cases hfind
      · intro m hm
        cases hm
    | none =>
      obtain ⟨ds, hc⟩ := hchain
      dsimp only
      rw [List.forall_mem_cons]
      refine ⟨⟨length_to83Format x, ds, hc⟩, ?_⟩
      split_ifs with h0
      · intro m hm
        cases hm
      · exact ih (Or.inr (createDirectory_fresh hgeo hc (length_to83Format x) h0).1)

end Fresh

section Paths

variable {fs : FAT32Driver} {dev : BlockDevice} {path rest : List Byte} {xs ys : List (List Byte)}
  {s : Slot} {ends : Bool} {n m k c : Nat}

theorem entryNames_of_le (hn : path.length ≤ n) (hm : path.length ≤ m) :
    entryNames n path = entryNames m path := by
  induction path using path_induction generalizing n m with
  | nil => cases n <;> cases m <;> rfl
  | whole x hnil hx hlen =>
    have hpos := List.length_pos_iff.mpr hnil
    obtain ⟨n, rfl⟩ := Nat.exists_eq_add_of_le' (Nat.le_trans hpos hn)
    obtain ⟨m, rfl⟩ := Nat.exists_eq_add_of_le' (Nat.le_trans hpos hm)
    rw [entryNames_whole hnil hx hlen, entryNames_whole hnil hx hlen]
  | slash x rest hx hlen ih =>
    rw [List.length_append, List.length_cons] at hn hm
    obtain ⟨n, rfl⟩ := Nat.exists_eq_add_of_le' (show 1 ≤ n by omega)
    obtain ⟨m, rfl⟩ := Nat.exists_eq_add_of_le' (show 1 ≤ m by omega)
    rw [entryNames_slash hx hlen, entryNames_slash hx hlen,
      ih (show rest.length ≤ n by omega) (show rest.length ≤ m by omega)]
  | cut x c rest hx hlen hc ih =>
    rw [List.length_append] at hn hm
    obtain ⟨n, rfl⟩ := Nat.exists_eq_add_of_le' (show 1 ≤ n by omega)
    obtain ⟨m, rfl⟩ := Nat.exists_eq_add_of_le' (show 1 ≤ m by omega)
    rw [entryNames_cut hx hlen hc, entryNames_cut hx hlen hc,
      ih (show (c :: rest).length ≤ n by omega) (show (c :: rest).length ≤ m by omega)]

/-- The names of a path that goes on behind a slash. -/
theorem entryNames_append (hends : (entryNames n path).2 = true) (hn : path.length ≤ n)
    (hm : (path ++ 0x2F#8 :: rest).length ≤ m) (hk : rest.length ≤ k) :
    entryNames m (path ++ 0x2F#8 :: rest) =
      ((entryNames n path).1 ++ (entryNames k rest).1, (entryNames k rest).2) := by
  rw [List.length_append, List.length_cons] at hm
  obtain ⟨m, rfl⟩ := Nat.exists_eq_add_of_le' (show 1 ≤ m by omega)
  induction path using path_induction generalizing n m with
  | nil => cases n <;> cases hends
  | whole x hnil hx hlen =>
    obtain ⟨n, rfl⟩ := Nat.exists_eq_add_of_le' (Nat.le_trans (List.length_pos_iff.mpr hnil) hn)
    rw [entryNames_slash hx hlen, entryNames_whole hnil hx hlen,
      entryNames_of_le (show rest.length ≤ m by omega) hk]
    rfl
  | slash x tail hx hlen ih =>
    rw [List.length_append, List.length_cons] at hn hm
    obtain ⟨n, rfl⟩ := Nat.exists_eq_add_of_le' (show 1 ≤ n by omega)
    obtain ⟨m, rfl⟩ := Nat.exists_eq_add_of_le' (show 1 ≤ m by omega)
    rw [entryNames_slash hx hlen] at hends ⊢
    rw [List.append_assoc, List.cons_append, entryNames_slash hx hlen,
      ih hends (by omega) m (by omega)]
    rfl
  | cut x c tail hx hlen hc ih =>
    rw [List.length_append] at hn hm
    obtain ⟨n, rfl⟩ := Nat.exists_eq_add_of_le' (show 1 ≤ n by omega)
    obtain ⟨m, rfl⟩ := Nat.exists_eq_add_of_le' (show 1 ≤ m by omega)
    have hrest := ih (n := n) (by rwa [entryNames_cut hx hlen hc] at hends) (by omega) m (by omega)
    rw [List.cons_append] at hrest
    rw [List.append_assoc, List.cons_append, entryNames_cut hx hlen hc, entryNames_cut hx hlen hc,
      hrest]
    rfl

theorem entryNames_relative (hends : (entryNames path.length (relative path)).2 = true) :
    entryNames (path ++ 0x2F#8 :: rest).length (relative (path ++ 0x2F#8 :: rest)) =
      ((entryNames path.length (relative path)).1 ++ (entryNames rest.length rest).1,
        (entryNames rest.length rest).2) := by
  have hpath : path ≠ [] := by
    rintro rfl
    cases hends
  have hlen := length_relative_le path
  rw [relative_append hpath]
  refine entryNames_append hends hlen ?_ le_rfl
  rw [List.length_append, List.length_append]
  omega

/-- Only a path that ends with a name gets to an entry. -/
theorem ends_of_resolveAlong (h : fs.resolveAlong dev ends xs c = some s) : ends = true := by
  induction xs generalizing c with
  | nil => cases h
  | cons x xs ih =>
    rw [resolveAlong] at h
    cases hfind : fs.findSlot dev x c with
    | none =>
      rw [hfind] at h
      cases h
    | some t =>
      rw [hfind] at h
      dsimp only at h
      split_ifs at h with hlast
      · exact hlast.2
      · exact ih h

/-- Behind the directory that some names lead to, further names lead on. -/
theorem resolveAlong_append (h : fs.resolveAlong dev true xs c = some s)
    (hdir : (fs.slotEntry dev s).isDirectory = true) (hys : ys ≠ []) :
    fs.resolveAlong dev ends (xs ++ ys) c =
      fs.resolveAlong dev ends ys (fs.directoryOf (fs.slotEntry dev s).firstCluster) := by
  induction xs generalizing c with
  | nil => cases h
  | cons x xs ih =>
    rw [resolveAlong] at h
    rw [List.cons_append, resolveAlong]
    cases hfind : fs.findSlot dev x c with
    | none =>
      rw [hfind] at h
      cases h
    | some t =>
      rw [hfind] at h
      have hgo : ¬(xs ++ ys = [] ∧ ends = true) :=
        fun hnil => hys (List.append_eq_nil_iff.mp hnil.1).2
      dsimp only at h ⊢
      rw [if_neg hgo]
      by_cases hlast : xs = []
      · rw [if_pos ⟨hlast, rfl⟩] at h
        obtain rfl : t = s := Option.some.inj h
        rw [hdir, Bool.not_true, if_neg Bool.false_ne_true, hlast, List.nil_append]
      · rw [if_neg fun hnil => hlast hnil.1] at h
        split_ifs at h ⊢
        exact ih h

/-- `GetFileEntry` along a path that goes on behind that of a directory. -/
theorem resolve_append {baseCluster : Nat} (h : fs.resolve dev path baseCluster = some s)
    (hdir : (fs.slotEntry dev s).isDirectory = true) (hrest : rest ≠ []) :
    fs.resolve dev (path ++ 0x2F#8 :: rest) baseCluster =
      fs.resolveAlong dev (entryNames rest.length rest).2 (entryNames rest.length rest).1
        (fs.directoryOf (fs.slotEntry dev s).firstCluster) := by
  rw [resolve_along] at h ⊢
  have hends := ends_of_resolveAlong h
  have hpath : path ≠ [] := by
    rintro rfl
    cases hends
  obtain ⟨c, tail, rfl⟩ := List.exists_cons_of_ne_nil hpath
  rw [hends] at h
  rw [entryNames_relative hends, List.cons_append, List.head?_cons]
  rw [List.head?_cons] at h
  exact resolveAlong_append h hdir (names_ne_nil hrest le_rfl)

end Paths

section Back

variable {fs : FAT32Driver} {dev : BlockDevice} {m : Creation} {path : List Byte} {ds : List Nat}
  {baseCluster : Nat}

/-- The entry `..` of a new directory has the cluster number of its parent, and `/..` behind a path
to it leads back. -/
structure Creation.Linked (fs : FAT32Driver) (m : Creation) (path : List Byte) (baseCluster : Nat) :
    Prop where
  refers : m.RefersToParent fs
  leads : m.LeadsBack fs path baseCluster

/-- No lookup of `..` finds anything in a new directory. -/
theorem Creation.not_leadsBack
    (hempty : EmptyDirectory fs (fs.view (m.after fs).store) (m.cluster fs))
    (hpath : m.ReachedBy fs path baseCluster) :
    fs.getDirectoryCluster (m.after fs) (path ++ [0x2F#8, 0x2E#8, 0x2E#8]) baseCluster =
      0xFFFFFFFF := by
  obtain ⟨e, he, hdir, hcluster⟩ := hpath
  rw [getFileEntry] at he
  obtain ⟨s, hs, rfl⟩ := Option.map_eq_some_iff.mp he
  have hnone : fs.findSlot (m.after fs) [0x2E#8, 0x2E#8] (m.cluster fs) = none :=
    Option.map_eq_none_iff.mp hempty.find_none
  have hnames : entryNames 2 [0x2E#8, 0x2E#8] = ([[0x2E#8, 0x2E#8]], true) := by decide
  have hback : fs.getFileEntry (m.after fs) (path ++ [0x2F#8, 0x2E#8, 0x2E#8]) baseCluster =
      none := by
    rw [getFileEntry, resolve_append hs hdir (List.cons_ne_nil _ _), hcluster,
      directoryOf_of_chain hempty.chain]
    simp only [List.length_cons, List.length_nil, hnames, resolveAlong, hnone, Option.map_none]
  rw [getDirectoryCluster, hback]
  have hlong : 3 ≤ (path ++ [0x2F#8, 0x2E#8, 0x2E#8]).length := by simp
  have hshort {p : List Byte} (hp : p.length < 3) : path ++ [0x2F#8, 0x2E#8, 0x2E#8] ≠ p := by
    rintro rfl
    omega
  rw [if_neg (hshort (by decide)), if_neg (not_or_intro (hshort (by decide)) (hshort (by decide)))]

/-- The entry `..` has the number that the parent is passed by. -/
theorem Creation.refersToParent_iff (hgeo : Geometry fs)
    (hc : ClusterChain fs (fs.view m.dev.store) (fs.directoryOf m.parent) ds)
    (hname : m.name.length = 11) (h0 : m.cluster fs ≠ 0) :
    m.RefersToParent fs ↔ m.parent = 0 ∨ m.parent ≠ fs.rootClus := by
  obtain ⟨hempty, hentry⟩ := createDirectory_fresh hgeo hc hname h0
  have hslot : (⟨m.cluster fs, 1⟩ : Slot) ∈ fs.slots [m.cluster fs] := by
    have := hgeo.secPerClus_pos
    rw [mem_slots, slotsPerCluster]
    exact ⟨List.mem_singleton_self _, by dsimp only; omega⟩
  have hlt : m.parent < 2 ^ 32 := by
    by_cases hp : m.parent = 0
    · omega
    · obtain ⟨-, -, -, h32⟩ := ClusterChain.lt hc hc.head_mem
      rwa [directoryOf, if_neg hp] at h32
  have hread : fs.slotEntry (m.after fs) ⟨m.cluster fs, 1⟩ =
      .create (0x2E#8 :: 0x2E#8 :: List.replicate 9 0x20#8) m.parent 0 0x10#8 :=
    (slotEntry_eq hempty.chain hslot).trans hentry
  have href : m.parentRef fs = m.parent := by
    rw [Creation.parentRef, hread, DirectoryEntry.firstCluster_create rfl hlt]
  rw [Creation.RefersToParent, href, directoryOf]
  by_cases hp : m.parent = 0
  · simp [hp]
  · rw [if_neg hp]
    split_ifs with hroot
    · simp [hroot]
    · simp [hroot]

/-- `/..` behind a path to a directory that is made leads nowhere. The entry `..` is wrong where the
root directory is passed by its number. -/
theorem new_directory_not_linked (hgeo : Geometry fs) (hv : SoundVolume fs (fs.view dev.store))
    (call : DirectoryCall) (hcall : call.Allowed fs dev) (hm : m ∈ call.creations fs dev)
    (h0 : m.cluster fs ≠ 0) :
    (m.RefersToParent fs ↔ m.parent = 0 ∨ m.parent ≠ fs.rootClus) ∧
      ∀ path baseCluster, m.ReachedBy fs path baseCluster → ¬m.Linked fs path baseCluster := by
  obtain ⟨hname, ds, hc⟩ : m.name.length = 11 ∧
      ∃ ds, ClusterChain fs (fs.view m.dev.store) (fs.directoryOf m.parent) ds := by
    cases call with
    | createDirectory name parentCluster =>
      obtain rfl : m = ⟨dev, name, parentCluster⟩ := List.mem_singleton.mp hm
      exact ⟨hcall.1, hv.directory_chain hcall.2⟩
    | ensureDirectory path =>
      have hroot : fs.directoryOf fs.rootClus = fs.rootClus := by
        rw [directoryOf]
        split_ifs <;> rfl
      exact creationsAlong_in_use hgeo _ (Or.inl ⟨hv, by rw [hroot]; exact .root⟩) m hm
  refine ⟨Creation.refersToParent_iff hgeo hc hname h0, fun path baseCluster hpath hlinked => ?_⟩
  have hback := Creation.not_leadsBack (createDirectory_fresh hgeo hc hname h0).1 hpath
  have hlt := (ClusterChain.lt hc hc.head_mem).2.2.1
  rw [← hlinked.leads, hback] at hlt
  exact absurd hlt (by decide)

end Back

/-- `EnsureDirectory` makes the directory `A` on the blank volume. -/
theorem new_directory_not_linked_small :
    ∃ m ∈ (DirectoryCall.ensureDirectory [0x61#8]).creations smallVolume ⟨blankDisk, []⟩,
      m.cluster smallVolume = 3 ∧ m.ReachedBy smallVolume [0x61#8] 0 ∧
        ¬m.RefersToParent smallVolume ∧ ¬m.Linked smallVolume [0x61#8] 0 := by
  have heval : segments 1 (relative [0x61#8]) = [[0x61#8]] ∧
      (smallVolume.findDirectoryEntry ⟨blankDisk, []⟩ [0x61#8] 2) = none ∧
      (smallVolume.createDirectory ⟨blankDisk, []⟩ (to83Format [0x61#8]) 2).1 = 3 ∧
      (smallVolume.getFileEntry (smallVolume.createDirectory ⟨blankDisk, []⟩
        (to83Format [0x61#8]) 2).2 [0x61#8] 0).map (fun e => (e.isDirectory, e.firstCluster)) =
          some (true, 3) := by
    decide +kernel
  obtain ⟨hnames, hnone, hcluster, hentry⟩ := heval
  have hm : ⟨⟨blankDisk, []⟩, to83Format [0x61#8], 2⟩ ∈
      (DirectoryCall.ensureDirectory [0x61#8]).creations smallVolume ⟨blankDisk, []⟩ := by
    rw [DirectoryCall.creations, List.length_singleton, hnames,
      show smallVolume.rootClus = 2 from rfl, creationsAlong, hnone]
    exact List.mem_cons_self
  have hreached : Creation.ReachedBy smallVolume ⟨⟨blankDisk, []⟩, to83Format [0x61#8], 2⟩
      [0x61#8] 0 := by
    obtain ⟨e, he, hboth⟩ := Option.map_eq_some_iff.mp hentry
    rw [Prod.mk.injEq] at hboth
    exact ⟨e, he, hboth.1, hboth.2.trans hcluster.symm⟩
  have hnot := new_directory_not_linked smallVolume_geometry blankDisk_sound
    (.ensureDirectory [0x61#8]) trivial hm (by rw [Creation.cluster, hcluster]; decide)
  refine ⟨_, hm, hcluster, hreached, ?_, hnot.2 _ _ hreached⟩
  rw [hnot.1]
  decide

/-- After `EnsureDirectory("a")` the entry `..` of the new directory has the number of the root
directory, and `a/..` leads nowhere. -/
theorem no_way_back :
    (smallVolume.ensureDirectory ⟨blankDisk, []⟩ [0x61#8]).1 = 3 ∧
      smallVolume.getDirectoryCluster (smallVolume.ensureDirectory ⟨blankDisk, []⟩ [0x61#8]).2
        [0x61#8] 0 = 3 ∧
      (smallVolume.slotEntry (smallVolume.ensureDirectory ⟨blankDisk, []⟩ [0x61#8]).2
        ⟨3, 1⟩).firstCluster = smallVolume.rootClus ∧ smallVolume.rootClus ≠ 0 ∧
      smallVolume.getDirectoryCluster (smallVolume.ensureDirectory ⟨blankDisk, []⟩ [0x61#8]).2
        [0x61#8, 0x2F#8, 0x2E#8, 0x2E#8] 0 = 0xFFFFFFFF := by
  decide +kernel

end Sylphia
