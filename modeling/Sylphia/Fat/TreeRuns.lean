import Sylphia.Fat.Components
import Sylphia.Fat.Incomplete
import Sylphia.Fat.TreeCalls

/-!
# Runs on the file tree

From a volume that was just formatted on, the disk has the tree that the calls make of a root
directory, also when the power fails in a call that frees no clusters, and `ReadFile` delivers what
the tree has.
-/

namespace Sylphia

open Bytes WriteLog Chain FAT32Driver FileTree

/-- What a tree has for a reader with a buffer of so many bytes. -/
def VolumeTree.read (t : VolumeTree) (p : List (List Byte)) (bufferSize : Nat) : Nat × List Byte :=
  match t.node p with
  | some (.file b) => if b.length > bufferSize then (0, []) else (b.length, b)
  | _ => (0, [])

section Reading

variable {fs : FAT32Driver} {dev : BlockDevice} {name path : List Byte}
  {names p q : List (List Byte)} {current bufferSize baseCluster : Nat} {s : Slot} {t : VolumeTree}
  {n : Node (List Byte)}

/-- `GetFileEntry` reads an entry as it is. -/
theorem EntryAt.slotEntry (h : EntryAt fs (fs.view dev.store) p s) :
    fs.slotEntry dev s = (fs.view dev.store).entry s := by
  obtain ⟨d, ds, -, hc, hs, -⟩ := h
  exact slotEntry_eq hc (live_subset _ _ s hs)

/-- A file is read as its bytes. -/
theorem Contents.readLoop {e : DirectoryEntry} {b : List Byte} (hgeo : Geometry fs)
    (h : Contents fs (fs.view dev.store) e b) :
    fs.readLoop dev e.fileSize e.fileSize e.firstCluster = b := by
  by_cases h0 : e.fileSize = 0
  · rw [h0, List.length_eq_zero_iff.mp (h.1.trans h0)]
    rfl
  · obtain ⟨cs, hcs, hlen, rfl⟩ := h.2 h0
    exact readLoop_stored hgeo hcs hlen (stored_chainBuffer _ _ _) le_rfl

variable (h : NamedVolume fs (fs.view dev.store)) (ht : Represents fs (fs.view dev.store) t)
include h

/-- A search finds the entry of the directory that has the name. -/
theorem findSlot_iff (hp : DirectoryAt fs (fs.view dev.store) p (fs.directoryOf current)) :
    fs.findSlot dev name current = some s ↔
      EntryAt fs (fs.view dev.store) p s ∧
        ((fs.view dev.store).entry s).name = convertName name := by
  have hc := h.directory_chain hp.isDirectory
  rw [← findSlot_directoryOf, findSlot_eq hc, List.take_of_length_le (by simp)]
  refine ⟨entryAt_of_find hp hc, ?_⟩
  rintro ⟨hs, hx⟩
  obtain ⟨d, ds, hd, hds, hlive, -⟩ := id hs
  obtain rfl := hd.unique h.unique hp
  obtain rfl := hds.unique hc
  cases hfind : (fs.view dev.store).find name (fs.slots [fs.directoryOf current]) with
  | none =>
    rw [View.find, List.find?_eq_none] at hfind
    exact absurd (beq_iff_eq.mpr hx) (hfind s hlive)
  | some u =>
    obtain ⟨hu, hux⟩ := entryAt_of_find hp hc hfind
    exact congrArg some (hu.unique h.unique hs (hux.trans hx.symm))

include ht

/-- `GetFileEntry` gets to what the tree has under the names, or to nothing. -/
theorem resolveAlong_represents (hne : names ≠ [])
    (hp : DirectoryAt fs (fs.view dev.store) p (fs.directoryOf current)) :
    (fs.resolveAlong dev true names current = none ∧ t.node (p ++ names.map convertName) = none) ∨
    ∃ s n, fs.resolveAlong dev true names current = some s ∧
      EntryNode fs (fs.view dev.store) (fs.slotEntry dev s) n ∧
      t.node (p ++ names.map convertName) = some n := by
  induction names generalizing p current with
  | nil => exact absurd rfl hne
  | cons x xs ih =>
    have hpath : p ++ (x :: xs).map convertName =
        p ++ [convertName x] ++ xs.map convertName := by simp
    rw [hpath, resolveAlong]
    cases hfind : fs.findSlot dev x current with
    | none =>
      have hnone : t.node (p ++ [convertName x]) = none := by
        rw [ht.absent_iff]
        intro u hu hx
        rw [(findSlot_iff h hp).mpr ⟨hu, hx⟩] at hfind
        cases hfind
      refine Or.inl ⟨rfl, ?_⟩
      by_cases hxs : xs = []
      · rw [hxs, List.map_nil, List.append_nil, hnone]
      · exact Tree.node_append (by rw [hnone]; trivial) (by simpa using hxs)
    | some s =>
      obtain ⟨hentry, hx⟩ := (findSlot_iff h hp).mp hfind
      obtain ⟨n, hn⟩ := ht.stands p s hentry
      have hnode : t.node (p ++ [convertName x]) = some n :=
        (ht.shows _ _).mp (shows_concat.mpr ⟨s, hentry, hx, hn⟩)
      dsimp only
      rw [hentry.slotEntry]
      by_cases hxs : xs = []
      · subst hxs
        rw [if_pos ⟨rfl, rfl⟩, List.map_nil, List.append_nil]
        refine Or.inr ⟨s, n, rfl, ?_, hnode⟩
        rwa [hentry.slotEntry]
      · rw [if_neg fun hc => hxs hc.1]
        cases hn with
        | directory hdir h0 hsize =>
          rw [hdir, Bool.not_true, if_neg Bool.false_ne_true]
          refine ih hxs ?_
          rw [directoryOf_directoryOf, directoryOf, if_neg h0]
          exact directoryAt_concat.mpr ⟨s, hentry, hx, hdir, rfl, h0⟩
        | file hfile hb =>
          rw [hfile, Bool.not_false, if_pos rfl]
          exact Or.inl ⟨rfl, Tree.node_append (by rw [hnode]; trivial) (by simpa using hxs)⟩

/-- `ReadFile` delivers what the tree has under the names of the path: those behind the directory
that it starts in, or all of them when the path starts with a slash. -/
theorem readFile_represents (hgeo : Geometry fs)
    (hp : DirectoryAt fs (fs.view dev.store) p (fs.directoryOf baseCluster)) :
    fs.readFile dev path bufferSize baseCluster =
      if (entryNames path.length (relative path)).2 then
        t.read ((if path.head? = some 0x2F#8 then [] else p) ++
          (entryNames path.length (relative path)).1.map convertName) bufferSize
      else (0, []) := by
  rw [readFile, getFileEntry, resolve_along]
  cases hends : (entryNames path.length (relative path)).2 with
  | false => rw [resolveAlong_open]; rfl
  | true =>
    have hstart : DirectoryAt fs (fs.view dev.store) (if path.head? = some 0x2F#8 then [] else p)
        (fs.directoryOf (if path.head? = some 0x2F#8 then fs.rootClus
          else fs.directoryOf baseCluster)) := by
      split
      · rw [directoryOf_root h.sound]
        exact .root
      · rwa [directoryOf_directoryOf]
    rw [if_pos rfl, VolumeTree.read]
    rcases resolveAlong_represents h ht (names_ne_nil_of_ends hends) hstart with
      ⟨hnone, hnode⟩ | ⟨s, n, hsome, hn, hnode⟩
    · rw [hnone, hnode]
      rfl
    · rw [hsome, hnode, Option.map_some]
      dsimp only
      cases hn with
      | directory _ _ hsize =>
        rw [hsize, if_neg (Nat.not_lt_zero _)]
        rfl
      | @file b hfile hb =>
        dsimp only
        rw [hb.readLoop hgeo, hb.1]

end Reading

/-! ## Calls -/

namespace FatCall

/-- What the call makes of the tree, in the directory of the path. -/
def onTree (t : VolumeTree) (p : List (List Byte)) : FatCall → VolumeTree
  | .writeFile name data size _ => t.put p name (some (.file (slice data 0 size)))
  | .appendFile name data size _ => t.modify p (convertName name.chars) (· ++ slice data 0 size)
  | .deleteFile name _ => t.put p (convertName name) none
  | .createDirectory name _ => t.put p name (some .directory)

/-- A name for an entry: eleven bytes that do not start with the mark of a free slot, and neither
`.` nor `..`. -/
def EntryName (name : List Byte) : Prop :=
  name.length = 11 ∧ (name.getD 0 0 ≠ 0 ∧ name.getD 0 0 ≠ 0xE5#8) ∧ ¬DotName name

instance (name : List Byte) : Decidable (EntryName name) :=
  inferInstanceAs (Decidable (_ ∧ _ ∧ _))

/-- A new name for a new entry, and a file for `AppendFile`, which is not empty, and for
`DeleteFile`. -/
def Permitted (t : VolumeTree) (p : List (List Byte)) : FatCall → Prop
  | .writeFile name _ size _ =>
    EntryName name ∧ t.node (p ++ [name]) = none ∧ size ≠ 0 ∧ size < 2 ^ 32
  | .appendFile name _ size _ => ∃ b, t.node (p ++ [convertName name.chars]) = some (.file b) ∧
      0 < b.length ∧ b.length + size < 2 ^ 32
  | .deleteFile name _ => ∃ b, t.node (p ++ [convertName name]) = some (.file b)
  | .createDirectory name _ => EntryName name ∧ t.node (p ++ [name]) = none

/-- The call is made for the directory of the path, the tree permits it, and there is room. -/
structure MadeAt (fs : FAT32Driver) (dev : BlockDevice) (t : VolumeTree) (p : List (List Byte))
    (call : FatCall) : Prop where
  directory : DirectoryAt fs (fs.view dev.store) p (fs.directoryOf call.parentCluster)
  permitted : call.Permitted t p
  complete : ¬call.Incomplete fs dev

end FatCall

section Calls

variable {fs : FAT32Driver} {dev : BlockDevice} {name : List Byte} {p : List (List Byte)}
  {t : VolumeTree} {call : FatCall} {parentCluster : Nat} {b : List Byte}

/-- A name that the tree does not have is a new name. -/
theorem newName_of_tree (ht : Represents fs (fs.view dev.store) t)
    (hp : DirectoryAt fs (fs.view dev.store) p (fs.directoryOf parentCluster))
    (hname : FatCall.EntryName name) (hnone : t.node (p ++ [name]) = none) :
    FatCall.NewName fs (fs.view dev.store) (fs.directoryOf parentCluster) name := by
  refine ⟨hname.1, hname.2.1, fun ds hc s hs hx => ?_⟩
  have hdot : ((fs.view dev.store).entry s).isDot = false := by
    rw [DirectoryEntry.isDot, hx, Bool.or_eq_false_iff, beq_eq_false_iff_ne, beq_eq_false_iff_ne]
    exact not_or.mp hname.2.2
  exact ht.absent_iff.mp hnone s ⟨_, ds, hp, hc, hs, hdot⟩ hx

variable (h : NamedVolume fs (fs.view dev.store)) (ht : Represents fs (fs.view dev.store) t)
include h ht

/-- A file of the tree is found. -/
theorem findSlot_of_tree (hp : DirectoryAt fs (fs.view dev.store) p (fs.directoryOf parentCluster))
    (hnode : t.node (p ++ [convertName name]) = some (.file b)) :
    ∃ s, fs.findSlot dev name parentCluster = some s ∧
      ((fs.view dev.store).entry s).isDirectory = false ∧
      ((fs.view dev.store).entry s).fileSize = b.length := by
  obtain ⟨s, hs, hx, hn⟩ := shows_concat.mp ((ht.shows _ _).mpr hnode)
  cases hn with
  | file hfile hb => exact ⟨s, (findSlot_iff h hp).mpr ⟨hs, hx⟩, hfile, hb.1.symm⟩

/-- `DeleteFile` finds it too. -/
theorem target_of_tree (hp : DirectoryAt fs (fs.view dev.store) p (fs.directoryOf parentCluster))
    (hnode : t.node (p ++ [convertName name]) = some (.file b)) :
    ∃ s, (FatCall.deleteFile name parentCluster).target fs dev = some s ∧
      ((fs.view dev.store).entry s).isDirectory = false := by
  obtain ⟨s, hs, hfile, -⟩ := findSlot_of_tree h ht hp hnode
  have hc := h.directory_chain hp.isDirectory
  rw [← findSlot_directoryOf, findSlot_eq hc, List.take_of_length_le (by simp)] at hs
  refine ⟨s, ?_, hfile⟩
  rw [FatCall.target, searchLoop_eq hc (h.sound.ended _ _ hp.isDirectory hc)
    (ClusterChain.length_lt hc), Option.join_some, hs]

namespace FatCall.MadeAt

variable (hcall : call.MadeAt fs dev t p)
include hcall

/-- What the tree permits may be done on the disk. -/
theorem valid : call.Valid fs dev := by
  obtain ⟨hp, hperm, -⟩ := hcall
  cases call with
  | writeFile name data size q =>
    obtain ⟨hname, hnone, hsize⟩ := hperm
    exact ⟨⟨hp.isDirectory, newName_of_tree ht hp hname hnone⟩, hsize⟩
  | createDirectory name q =>
    exact ⟨⟨hp.isDirectory, newName_of_tree ht hp hperm.1 hperm.2⟩, trivial⟩
  | appendFile name data size q =>
    obtain ⟨b, hnode, hpos, h32⟩ := hperm
    obtain ⟨s, hs, hfile, hsize⟩ := findSlot_of_tree h ht hp hnode
    refine ⟨⟨hp.isDirectory, s, hs, hfile⟩, fun u hu => ?_⟩
    obtain rfl := Option.some.inj (hs.symm.trans hu)
    rw [hsize]
    exact ⟨hpos, h32⟩
  | deleteFile name q =>
    obtain ⟨b, hnode⟩ := hperm
    exact ⟨⟨hp.isDirectory, target_of_tree h ht hp hnode⟩, trivial⟩

theorem room : call.Room fs dev := by
  have hvalid := hcall.valid h ht
  obtain ⟨hp, hperm, hcomplete⟩ := hcall
  cases call with
  | writeFile name data size q =>
    rw [Incomplete, LacksRoom, not_and, not_or, Nat.not_lt, not_not] at hcomplete
    exact ⟨hperm.1.2.2, Or.inr (hcomplete hperm.2.2.1)⟩
  | createDirectory name q =>
    rw [Incomplete, not_or, not_not] at hcomplete
    exact ⟨hperm.1.2.2, Or.inr hcomplete.2⟩
  | appendFile name data size q =>
    intro s hs
    have hs' : fs.findSlot dev name.chars q = some s := hs
    rw [Incomplete, hs', not_and, Nat.not_lt] at hcomplete
    by_cases h0 : size = 0
    · rw [h0, Nat.zero_sub, clustersFor_zero]
      exact Nat.zero_le _
    · exact (Nat.le_add_left _ _).trans (hcomplete h0)
  | deleteFile name q => trivial

theorem fresh : (FatOperation.call call).Fresh fs dev := by
  obtain ⟨⟨hd, hproper⟩, -⟩ := hcall.valid h ht
  refine ⟨hd, ?_⟩
  cases call with
  | writeFile => exact hproper
  | createDirectory => exact hproper
  | appendFile name data size q =>
    obtain ⟨s, hs, hfile⟩ := hproper
    have hs' : fs.findSlot dev name.chars q = some s := hs
    dsimp only
    rw [hs']
    exact hfile
  | deleteFile => trivial

/-- A call has the disk go over from the one tree to the other, at one write unless it frees
clusters. -/
theorem run (hgeo : Geometry fs) (hwf : WellFormed fs dev.store) :
    ∃ dev', call.run fs dev = some dev' ∧ Represents fs (fs.view dev'.store) (call.onTree t p) ∧
      (¬call.FreesClusters fs dev → Passes fs (fun V => Represents fs V t ∨
        Represents fs V (call.onTree t p)) dev dev') := by
  have hvalid := hcall.valid h ht
  have hroom := hcall.room h ht
  obtain ⟨hp, hperm, hcomplete⟩ := hcall
  obtain ⟨⟨hd, hproper⟩, hvalid⟩ := hvalid
  cases call with
  | writeFile name data size q =>
    have hatomic := writeFile_atomic hgeo h ht hp data hproper hroom.1 hvalid.1 hvalid.2
    exact ⟨_, rfl, hatomic.all hcomplete, fun _ => hatomic.cut⟩
  | createDirectory name q =>
    have hatomic := createDirectory_atomic hgeo h ht hp hproper hroom.1
    exact ⟨_, rfl, hatomic.all hcomplete, fun _ => hatomic.cut⟩
  | appendFile name data size q =>
    obtain ⟨s, hs, hfile⟩ := hproper
    obtain ⟨hold, h32⟩ := hvalid s hs
    obtain ⟨dev', heq, hatomic⟩ := @appendFile_atomic fs dev data _ _ _ _ _ hgeo ht hp name h hwf hs
      hfile hold h32 (hroom s hs)
    exact ⟨dev', heq, hatomic.all trivial, fun _ => hatomic.cut⟩
  | deleteFile name q =>
    obtain ⟨s, hs, hfile⟩ := hproper
    obtain ⟨dev', heq, hend, hatomic⟩ := deleteFile_atomic hgeo ht hp h hs hfile
    exact ⟨dev', congrArg (Option.map Prod.snd) heq, hend, fun hno => (hatomic hno).cut⟩

end FatCall.MadeAt

end Calls

/-- The tree after calls that started with an empty root directory, the newest first. -/
def treeAfter (run : List (Option Disk × List (List Byte) × FatCall)) : VolumeTree :=
  run.foldr (fun x t => x.2.2.onTree t x.2.1) Tree.empty

section Runs

variable {fs : FAT32Driver} {run : List (Option Disk × List (List Byte) × FatCall)}
  {s : Option Disk} {d : Disk} {t : VolumeTree} {p : List (List Byte)} {call : FatCall}

/-- The runs from a well-formed volume that was just formatted, along the paths of directories. -/
abbrev TreeRun (fs : FAT32Driver) :
    List (Option Disk × List (List Byte) × FatCall) → Option Disk → Prop :=
  Transition.Run (fun s x => FatCall.step fs s x.2) (fun _ _ => True)
    fun s => ∃ d, s = some d ∧ Formatted fs d ∧ WellFormed fs d

/-- Each call was permitted by the tree of its time, and found room. -/
def TreePermitted (fs : FAT32Driver) : List (Option Disk × List (List Byte) × FatCall) → Prop :=
  Transition.Throughout fun past x =>
    ∀ d, x.1 = some d → x.2.2.MadeAt fs ⟨d, []⟩ (treeAfter past) x.2.1

/-- The disk is in order and has the tree. -/
structure HasTree (fs : FAT32Driver) (d : Disk) (t : VolumeTree) : Prop where
  wellFormed : WellFormed fs d
  named : NamedVolume fs (fs.view d)
  represents : Represents fs (fs.view d) t

/-- A new volume has a root directory only. -/
theorem Formatted.hasTree (h : Formatted fs d) (hwf : WellFormed fs d) :
    HasTree fs d Tree.empty := by
  have hflat := flat_of_zero h.chain h.unused
  have hnone (p : List (List Byte)) (s : Slot) : ¬EntryAt fs (fs.view d) p s := by
    rintro ⟨c, ds, hc, hds, hs, -⟩
    obtain rfl := hflat.isDirectory hc.isDirectory
    rw [hds.unique h.chain, live_of_zero h.unused] at hs
    cases hs
  refine ⟨hwf, h.named, fun p n => ?_, fun p s hs => absurd hs (hnone p s)⟩
  rcases List.eq_nil_or_concat' p with rfl | ⟨p, x, rfl⟩
  · rw [shows_nil, Tree.root, Option.some.injEq, eq_comm]
  · rw [shows_concat]
    refine iff_of_false (fun hs => ?_) fun hn => ?_
    · obtain ⟨s, hs, -⟩ := hs
      exact hnone p s hs
    · rw [Tree.node_empty, if_neg (by simp)] at hn
      cases hn

/-- One call. -/
theorem HasTree.step (h : HasTree fs d t) (hgeo : Geometry fs)
    (hcall : call.MadeAt fs ⟨d, []⟩ t p) :
    ∃ d', call.step fs (some d) = some d' ∧ HasTree fs d' (call.onTree t p) := by
  obtain ⟨dev', hrun, hrep, -⟩ := hcall.run h.named h.represents hgeo h.wellFormed
  obtain ⟨d₁, hstep₁, hwf⟩ := h.wellFormed.step hgeo (hcall.valid h.named h.represents)
    (hcall.room h.named h.represents)
  obtain ⟨d₂, hstep₂, hnamed⟩ := h.named.step hgeo (hcall.fresh h.named h.represents)
  have hstore : call.step fs (some d) = some dev'.store := congrArg (Option.map Logged.store) hrun
  rw [show (FatOperation.call call).step fs (some d) = call.step fs (some d) from rfl] at hstep₂
  rw [hstore] at hstep₁ hstep₂ ⊢
  cases hstep₁
  cases hstep₂
  exact ⟨_, rfl, hwf, hnamed, hrep⟩

/-- The disk has at the end of every run the tree that the calls make. -/
theorem TreeRun.hasTree (hrun : TreeRun fs run s) (hgeo : Geometry fs)
    (hperm : TreePermitted fs run) : ∃ d, s = some d ∧ HasTree fs d (treeAfter run) := by
  have hinv := hrun.throughout (I := fun run s => ∃ d, s = some d ∧ HasTree fs d (treeAfter run))
    (P := fun _ _ => True) (fun s h => ?_) (fun past s x hs _ hx => ?_) hperm
  · exact hinv.2
  · obtain ⟨d, rfl, hformatted, hwf⟩ := h
    exact ⟨d, rfl, hformatted.hasTree hwf⟩
  · obtain ⟨d, rfl, hd⟩ := hs
    exact ⟨trivial, hd.step hgeo (hx d rfl)⟩

/-- The calls refine those on a file tree: after every run of permitted calls that find room the
disk is in order and has the tree that they make, and every path is read as the tree has it. -/
theorem tree_run (hgeo : Geometry fs) (hrun : TreeRun fs run s) (hperm : TreePermitted fs run) :
    ∃ d, s = some d ∧ HasTree fs d (treeAfter run) ∧
      ∀ path bufferSize, fs.readFile ⟨d, []⟩ path bufferSize 0 =
        if (entryNames path.length (relative path)).2 then (treeAfter run).read
          ((entryNames path.length (relative path)).1.map convertName) bufferSize
        else (0, []) := by
  obtain ⟨d, hs, hd⟩ := hrun.hasTree hgeo hperm
  refine ⟨d, hs, hd, fun path bufferSize => ?_⟩
  have hroot : DirectoryAt fs (fs.view d) [] (fs.directoryOf 0) := by
    rw [directoryOf, if_pos rfl]
    exact .root
  rw [@readFile_represents fs ⟨d, []⟩ _ _ _ _ _ hd.named hd.represents hgeo hroot, ite_self,
    List.nil_append]

/-- A power failure in a call that frees no clusters leaves the tree of before the call or the
tree of afterwards, whatever calls there were. -/
theorem tree_crash (hgeo : Geometry fs) (hrun : TreeRun fs run s) (hperm : TreePermitted fs run) :
    ∃ d, s = some d ∧ ∀ p (call : FatCall), call.MadeAt fs ⟨d, []⟩ (treeAfter run) p →
      ¬call.FreesClusters fs ⟨d, []⟩ → ∃ dev', call.run fs ⟨d, []⟩ = some dev' ∧
        ∀ ws, ws <+: dev'.log → NamedVolume fs (fs.view (replay ws d)) ∧
          (Represents fs (fs.view (replay ws d)) (treeAfter run) ∨
            Represents fs (fs.view (replay ws d)) (call.onTree (treeAfter run) p)) := by
  obtain ⟨d, hs, hd⟩ := hrun.hasTree hgeo hperm
  refine ⟨d, hs, fun p call hcall hno => ?_⟩
  obtain ⟨dev', hcallRun, -, htree⟩ := hcall.run hd.named hd.represents hgeo hd.wellFormed
  obtain ⟨_, -, -, -, hfile⟩ := @FatCall.run_kept fs ⟨d, []⟩ call hgeo hd.named.sound
    (hcall.valid hd.named hd.represents).1
  obtain ⟨dev₁, hrun₁, -, hspares⟩ := FatOperation.spares hgeo hd.named
    (hcall.fresh hd.named hd.represents) hfile
  obtain rfl : dev' = dev₁ := Option.some.inj (hcallRun.symm.trans hrun₁)
  have hpass := (hspares hno).and (htree hno)
  refine ⟨dev', hcallRun, fun ws hws => ?_⟩
  obtain ⟨hspared, hrep⟩ := (Logged.through_iff (hpass.mono fun _ _ => trivial)).mp hpass ws hws
  exact ⟨hspared.1, hrep⟩

/-- The file `A` is written. -/
private theorem oneFile_run :
    TreeRun smallVolume [(some blankDisk, [], smallWrite)] (some oneFileDisk.store) ∧
      TreePermitted smallVolume [(some blankDisk, [], smallWrite)] := by
  have heval : smallVolume.clustersFor 3 ≤ (smallVolume.view blankDisk).freeClusters.length ∧
      FreeSlot smallVolume (smallVolume.view blankDisk) (smallVolume.directoryOf 0) := by
    decide +kernel
  refine ⟨.step _ (.start ⟨blankDisk, rfl, blankDisk_formatted, blankDisk_wellFormed⟩) trivial,
    fun d hd => ?_, trivial⟩
  obtain rfl := Option.some.inj hd
  refine ⟨.root, ⟨by decide, rfl, by decide, by decide⟩, ?_⟩
  rintro ⟨-, hlacks | hfull⟩
  · exact absurd heval.1 (Nat.not_le.mpr hlacks)
  · exact hfull heval.2

/-- The file is written and grows, and a directory is made. -/
def smallTreeRun : List (Option Disk × List (List Byte) × FatCall) :=
  [(some grownDisk, [], smallMake), (some oneFileDisk.store, [], smallAppend),
    (some blankDisk, [], smallWrite)]

theorem smallTreeRun_permitted :
    TreeRun smallVolume smallTreeRun (smallMake.step smallVolume (some grownDisk)) ∧
      TreePermitted smallVolume smallTreeRun := by
  have heval : smallVolume.findSlot ⟨oneFileDisk.store, []⟩ [0x61#8] 0 = some ⟨2, 0⟩ ∧
      ((smallVolume.view oneFileDisk.store).entry ⟨2, 0⟩).firstCluster ≠ 0 ∧
      smallVolume.clustersFor (600 - smallVolume.roomInLast
        ((smallVolume.view oneFileDisk.store).entry ⟨2, 0⟩).fileSize) ≤
          (smallVolume.view oneFileDisk.store).freeClusters.length ∧
      (smallVolume.view grownDisk).freeClusters.length ≠ 0 ∧
      FreeSlot smallVolume (smallVolume.view grownDisk) (smallVolume.directoryOf 0) := by
    decide +kernel
  obtain ⟨hfind, h0, hroom, hsome, hfree⟩ := heval
  have happend : TreeRun smallVolume [(some oneFileDisk.store, [], smallAppend),
      (some blankDisk, [], smallWrite)] (some grownDisk) := by
    rw [← smallAppend_step]
    exact .step ([], smallAppend) oneFile_run.1 trivial
  refine ⟨.step ([], smallMake) happend trivial, fun d hd => ?_, fun d hd => ?_, oneFile_run.2⟩
  · obtain rfl := Option.some.inj hd
    refine ⟨.root, ⟨by decide, by decide⟩, ?_⟩
    rintro (hfull | hslot)
    · rw [diskFull_iff.mp hfull] at hsome
      exact hsome rfl
    · exact hslot hfree
  · obtain rfl := Option.some.inj hd
    refine ⟨.root, ⟨[0x2A#8, 0x2A#8, 0x2A#8], by decide, by decide, by decide⟩, ?_⟩
    rintro ⟨-, hlacks⟩
    rw [hfind] at hlacks
    dsimp only at hlacks
    rw [if_neg h0, Nat.zero_add] at hlacks
    exact absurd hroom (Nat.not_le.mpr hlacks)

/-- The file is read with the bytes behind it, and no other; the directory is no file. -/
theorem tree_run_small : ∃ d, smallMake.step smallVolume (some grownDisk) = some d ∧
    HasTree smallVolume d (treeAfter smallTreeRun) ∧
    smallVolume.readFile ⟨d, []⟩ [0x2F#8, 0x61#8] 1000 0 =
      (603, [0x2A#8, 0x2A#8, 0x2A#8] ++ slice (fun k => BitVec.ofNat 8 k) 0 600) ∧
    smallVolume.readFile ⟨d, []⟩ [0x2F#8, 0x62#8] 1000 0 = (0, []) ∧
    smallVolume.readFile ⟨d, []⟩ [0x2F#8, 0x64#8] 1000 0 = (0, []) := by
  obtain ⟨d, hd, htree, hread⟩ := tree_run smallVolume_geometry smallTreeRun_permitted.1
    smallTreeRun_permitted.2
  refine ⟨d, hd, htree, (hread _ _).trans ?_, (hread _ _).trans ?_, (hread _ _).trans ?_⟩
  · decide +kernel
  · decide +kernel
  · decide +kernel

/-- The power fails while 600 bytes are appended to the file. -/
theorem tree_crash_small : ∃ dev',
    smallVolume.appendFile ⟨oneFileDisk.store, []⟩ ⟨[0x61#8], []⟩ (fun k => BitVec.ofNat 8 k)
    600 0 =
        some dev' ∧
      ∀ ws, ws <+: dev'.log → NamedVolume smallVolume (smallVolume.view
          (replay ws oneFileDisk.store)) ∧
        (Represents smallVolume (smallVolume.view (replay ws oneFileDisk.store))
            (Tree.empty.put [] (oneLetter 0x41#8) (some (.file [0x2A#8, 0x2A#8, 0x2A#8]))) ∨
          Represents smallVolume (smallVolume.view (replay ws oneFileDisk.store))
            ((Tree.empty.put [] (oneLetter 0x41#8)
              (some (.file [0x2A#8, 0x2A#8, 0x2A#8]))).modify []
              (oneLetter 0x41#8) (· ++ slice (fun k => BitVec.ofNat 8 k) 0 600))) := by
  have heval : smallVolume.findSlot ⟨oneFileDisk.store, []⟩ [0x61#8] 0 = some ⟨2, 0⟩ ∧
      ((smallVolume.view oneFileDisk.store).entry ⟨2, 0⟩).firstCluster ≠ 0 ∧
      smallVolume.clustersFor (600 - smallVolume.roomInLast
        ((smallVolume.view oneFileDisk.store).entry ⟨2, 0⟩).fileSize) ≤
          (smallVolume.view oneFileDisk.store).freeClusters.length := by
    decide +kernel
  obtain ⟨hfind, h0, hroom⟩ := heval
  obtain ⟨d, hd, hcrash⟩ := tree_crash smallVolume_geometry oneFile_run.1 oneFile_run.2
  obtain rfl := Option.some.inj hd
  refine hcrash [] (.appendFile ⟨[0x61#8], []⟩ (fun k => BitVec.ofNat 8 k) 600 0)
    ⟨.root, ⟨[0x2A#8, 0x2A#8, 0x2A#8], by decide, by decide, by decide⟩, ?_⟩ id
  rintro ⟨-, hlacks⟩
  rw [hfind] at hlacks
  dsimp only at hlacks
  rw [if_neg h0, Nat.zero_add] at hlacks
  exact absurd hroom (Nat.not_le.mpr hlacks)

end Runs

end Sylphia
