import Sylphia.Fat.Crash
import Sylphia.Fat.LastWrite

/-!
# What survives an operation

An operation that frees no clusters may be stopped after any of its sector writes: the volume
is one with unique names all the way, and every file but the target of the operation is kept.
-/

namespace Sylphia

open Bytes WriteLog Chain FAT32Driver

/-- The names on the volume are unique, and everything but the target is kept. -/
def Spared (fs : FAT32Driver) (T : Option Slot) (V V' : View) : Prop :=
  NamedVolume fs V' ∧ Kept fs T V V'

section Spared

variable {fs : FAT32Driver} {V V' V'' : View} {T : Option Slot} {dev dev₁ dev' : BlockDevice}
  {d : Nat}

theorem Spared.refl (h : NamedVolume fs V) (T : Option Slot) : Spared fs T V V := by
  have hsame : Lengthens fs V V [] [] := .refl fun _ hc => by cases hc
  exact ⟨h, (hsame.within.frame_none h.sound).2.2.mono T⟩

theorem Spared.trans (h : Spared fs T V V') (h' : Spared fs T V' V'') : Spared fs T V V'' :=
  ⟨h'.1, h.2.trans h'.2⟩

theorem Spared.mono (h : Spared fs none V V') (T : Option Slot) : Spared fs T V V' :=
  ⟨h.1, h.2.mono T⟩

/-- What an owner does not have may change. -/
theorem Within.spared (h : Within fs V [] V') (hv : NamedVolume fs V) : Spared fs none V V' := by
  obtain ⟨hv', hsame, hkept⟩ := h.frame_none hv.sound
  exact ⟨hv.of_same hv' hsame, hkept⟩

/-- The state at the end is one that the computation goes through. -/
theorem Passes.last {Q : View → Prop} (h : Passes fs Q dev dev') : Q (fs.view dev'.store) := by
  obtain ⟨ws, -, hs, hall⟩ := h
  rw [hs]
  exact hall ws (List.prefix_refl ws)

theorem Passes.and {Q R : View → Prop} (h : Passes fs Q dev dev') (h' : Passes fs R dev dev') :
    Passes fs (fun V => Q V ∧ R V) dev dev' := by
  obtain ⟨ws, hlog, hstore, hall⟩ := h
  obtain ⟨vs, hlog', -, hall'⟩ := h'
  obtain rfl : ws = vs := List.append_cancel_left (hlog.symm.trans hlog')
  exact ⟨ws, hlog, hstore, fun us hus => ⟨hall us hus, hall' us hus⟩⟩

/-- One computation after the other. -/
theorem Passes.andThen (h : Passes fs (Spared fs T V) dev dev₁)
    (h' : Passes fs (Spared fs T (fs.view dev₁.store)) dev₁ dev') :
    Passes fs (Spared fs T V) dev dev' :=
  h.trans (h'.mono fun _ hs => Spared.trans h.last hs)

end Spared

section Entries

variable {fs : FAT32Driver} {dev dev₁ : BlockDevice} {Q : View → Prop} {name : List Byte}
  {data : Buffer} {c first size parentCluster : Nat} {attr : Byte} {new : List Nat}

/-- `AddDirectoryEntry` is one write, if it is any. -/
theorem passes_addEntry (hgeo : Geometry fs) (h2 : 2 ≤ fs.directoryOf parentCluster)
    (h32 : fs.directoryOf parentCluster < 2 ^ 32) (hname : name.length = 11)
    (hpast : Passes fs Q dev dev₁)
    (hend : Q (fs.view (fs.addDirectoryEntry dev₁ name first size attr parentCluster).store)) :
    Passes fs Q dev (fs.addDirectoryEntry dev₁ name first size attr parentCluster) := by
  rcases @addDirectoryEntry_eq fs dev₁ _ name first size parentCluster attr rfl h2 h32 with
    ⟨heq, -⟩ | ⟨i, hi, -, -, heq⟩
  · rw [heq]
    exact hpast
  · obtain ⟨hview, hpass⟩ := @writeSlot_view fs Q _ hgeo dev₁ ⟨fs.directoryOf parentCluster, i⟩ h2
      h32 hi _ (DirectoryEntry.length_create hname first size attr)
      fun k hk => read_cluster dev₁ h2 h32 hk
    rw [heq] at hend ⊢
    rw [hview] at hend
    exact hpast.trans (hpass hpast.last hend)

/-- Where an entry may go is a cluster in use. -/
theorem MayAdd.cluster {V : View} {d : Nat} (hv : SoundVolume fs V) (h : MayAdd fs V d name) :
    name.length = 11 ∧ 2 ≤ d ∧ d < 2 ^ 32 := by
  rcases h with ⟨hd, hname⟩ | ⟨hd, hname⟩
  · obtain ⟨ds, hc⟩ := hv.directory_chain hd
    obtain ⟨h2, -, -, h32⟩ := ClusterChain.lt hc hc.head_mem
    exact ⟨hname.length, h2, h32⟩
  · obtain ⟨h2, -, -, h32⟩ := ClusterChain.lt hd.chain hd.chain.head_mem
    exact ⟨hname, h2, h32⟩

section AddEntry

variable (hgeo : Geometry fs) (h : NamedVolume fs (fs.view dev.store))
  (hg : Lengthens fs (fs.view dev.store) (fs.view dev₁.store) [] new)
include hgeo h hg

/-- An entry in a cluster that nobody owns is no loss for anybody. -/
theorem kept_addEntry_stray (hd : Stray fs (fs.view dev.store) (fs.directoryOf parentCluster))
    (hname : name.length = 11) (first size : Nat) (attr : Byte) :
    Kept fs none (fs.view dev.store)
      (fs.view (fs.addDirectoryEntry dev₁ name first size attr parentCluster).store) := by
  obtain ⟨-, -, hfat, hdata⟩ := addEntry_stray hgeo h hg hd hname first size attr
  refine (h.sound.frame (T := none) (fun t ht => by cases ht) (fun o b cs ho _ hc x hx => ?_)
    fun t _ _ ht => by cases ht).2.2
  obtain ⟨hfat₁, hdata₁⟩ := hg.within.same x (fat_ne_zero hc hx) (by simp)
  have hxd : x ≠ fs.directoryOf parentCluster := by
    rintro rfl
    exact hd.apart o b cs ho hc hx
  exact ⟨(congrFun hfat x).trans hfat₁, (hdata x hxd).trans hdata₁⟩

/-- The clusters are taken, and then there is the entry. -/
theorem addEntry_spares (hadv : Advance fs (fs.view dev.store) [] dev dev₁)
    (hfirst : new.head? = some first)
    (hdir : attr &&& 0x10#8 ≠ 0 → DotCluster fs (fs.view dev₁.store) new first)
    (hadd : MayAdd fs (fs.view dev.store) (fs.directoryOf parentCluster) name) (size : Nat) :
    Passes fs (Spared fs none (fs.view dev.store)) dev
      (fs.addDirectoryEntry dev₁ name first size attr parentCluster) := by
  obtain ⟨hname, h2, h32⟩ := hadd.cluster h.sound
  refine passes_addEntry hgeo h2 h32 hname (hadv.passes.mono fun _ hw => Within.spared hw h)
    ⟨addEntry_named hgeo h hg hfirst hdir hadd size, ?_⟩
  rcases hadd with ⟨hd, hnew⟩ | ⟨hd, hlen⟩
  · refine (addEntry_kept hgeo h.sound hg hd hnew hfirst (fun ha => ?_) size).2
    obtain ⟨rfl, q, hdata⟩ := hdir ha
    exact dotEntries_empty hdata
  · exact kept_addEntry_stray hgeo h hg hd hlen first size attr

end AddEntry

variable (hgeo : Geometry fs) (h : NamedVolume fs (fs.view dev.store))
include hgeo h

theorem writeFile_spares (data : Buffer) (size : Nat)
    (hadd : MayAdd fs (fs.view dev.store) (fs.directoryOf parentCluster) name) :
    Passes fs (Spared fs none (fs.view dev.store)) dev
      (fs.writeFile dev name data size parentCluster) := by
  by_cases hsize : size = 0
  · rw [writeFile_empty hsize]
    exact Logged.Through.refl (Spared.refl h none)
  · obtain ⟨new, dev₁, hg, hadv, ⟨heq, -⟩ | ⟨first, hfirst, -, -, heq⟩⟩ :=
      @writeFile_cases fs dev name data size parentCluster hgeo hsize
    · rw [heq]
      exact hadv.passes.mono fun _ hw => Within.spared hw h
    · rw [heq]
      exact addEntry_spares hgeo h hg hadv hfirst (fun ha => absurd rfl ha) hadd size

theorem createDirectory_spares
    (hadd : MayAdd fs (fs.view dev.store) (fs.directoryOf parentCluster) name) :
    Passes fs (Spared fs none (fs.view dev.store)) dev
      (fs.createDirectory dev name parentCluster).2 := by
  rcases @createDirectory_cases fs dev name parentCluster hgeo with
    ⟨heq, -⟩ | ⟨c, dev₁, hg, hadv, hdata, heq⟩
  · rw [heq]
    exact Logged.Through.refl (Spared.refl h none)
  · rw [heq]
    exact addEntry_spares hgeo h hg hadv rfl (fun _ => ⟨rfl, _, hdata⟩) hadd 0

end Entries

section Paths

variable {fs : FAT32Driver} {dev : BlockDevice} {path src dstPath : List Byte} {n c current : Nat}

/-- A segment is made, and the loop goes on in the new directory. -/
private theorem spares_of_create (hgeo : Geometry fs) (h : NamedVolume fs (fs.view dev.store))
    (hadd : MayAdd fs (fs.view dev.store) (fs.directoryOf current) (to83Format src))
    (hrest : ∀ {dev : BlockDevice} {c : Nat}, NamedVolume fs (fs.view dev.store) →
      EmptyDirectory fs (fs.view dev.store) c →
      (IsDirectory fs (fs.view dev.store) c ∨ Stray fs (fs.view dev.store) c) →
      Passes fs (Spared fs none (fs.view dev.store)) dev (fs.ensureLoop n dev path c).2) :
    Passes fs (Spared fs none (fs.view dev.store)) dev
      (let (newCluster, dev) := fs.createDirectory dev (to83Format src) current
        if newCluster = 0 then (0, dev) else fs.ensureLoop n dev path newCluster).2 := by
  have hpass := createDirectory_spares hgeo h hadd
  have hempty := createDirectory_empty hgeo h hadd (not_dotName_to83Format src)
  dsimp only at hempty ⊢
  split_ifs with h0
  · exact hpass
  · obtain ⟨he, hd⟩ := hempty h0
    exact hpass.andThen (hrest hpass.last.1 he hd)

theorem ensureLoop_spares (hgeo : Geometry fs) (h : NamedVolume fs (fs.view dev.store))
    (he : EmptyDirectory fs (fs.view dev.store) c)
    (hd : IsDirectory fs (fs.view dev.store) c ∨ Stray fs (fs.view dev.store) c)
    (hnames : ∀ seg ∈ segments n path, StartsName (to83Format seg)) :
    Passes fs (Spared fs none (fs.view dev.store)) dev (fs.ensureLoop n dev path c).2 := by
  induction n generalizing dev path c with
  | zero => exact Logged.Through.refl (Spared.refl h none)
  | succ n ih =>
    rw [ensureLoop_succ]
    split_ifs with hseg
    · exact Logged.Through.refl (Spared.refl h none)
    · rw [segments, if_neg hseg, List.forall_mem_cons] at hnames
      rw [he.find_none]
      refine spares_of_create hgeo h ?_ fun h he hd => ih h he hd hnames.2
      rw [directoryOf_of_chain he.chain]
      exact he.mayAdd hd hnames.1

theorem ensureDirectory_spares (hgeo : Geometry fs) (h : NamedVolume fs (fs.view dev.store))
    (hpath : FreshPath fs dev path) :
    Passes fs (Spared fs none (fs.view dev.store)) dev (fs.ensureDirectory dev path).2 := by
  have hroot : IsDirectory fs (fs.view dev.store) (fs.directoryOf fs.rootClus) := by
    rw [directoryOf_root h.sound]
    exact .root
  have hwalk := @walk_directory fs dev (if path.head? = some 0x2F#8 then path.drop 1 else path)
    path.length fs.rootClus h hroot
  rw [FreshPath, walkPath] at hpath
  rw [ensureDirectory, ensureLoop_walk]
  cases hw : fs.walk dev path.length (if path.head? = some 0x2F#8 then path.drop 1 else path)
      fs.rootClus with
  | found c => exact Logged.Through.refl (Spared.refl h none)
  | blocked => exact Logged.Through.refl (Spared.refl h none)
  | missing n rest c =>
    rw [hw] at hwalk hpath
    obtain ⟨hd, hseg, hnone, hn⟩ := hwalk
    obtain ⟨m, rfl⟩ := Nat.exists_eq_succ_of_ne_zero (Nat.pos_iff_ne_zero.mp hn)
    dsimp only
    rw [ensureLoop_succ, if_neg hseg, hnone]
    exact spares_of_create hgeo h (Or.inl ⟨hd, hpath.1⟩) fun h he hd =>
      ensureLoop_spares hgeo h he hd hpath.2

theorem copyFileFrom_spares (hgeo : Geometry fs) (h : NamedVolume fs (fs.view dev.store))
    (hcopy : FreshCopy fs dev dstPath) (srcFs : FAT32Driver) (srcDev : BlockDevice)
    (srcPath : List Byte) (memory : Option Buffer) :
    Passes fs (Spared fs none (fs.view dev.store)) dev
      (fs.copyFileFrom dev srcFs srcDev srcPath dstPath memory).2 := by
  have hrefl : Passes fs (Spared fs none (fs.view dev.store)) dev dev :=
    Logged.Through.refl (Spared.refl h none)
  cases memory with
  | none =>
    rw [copyFileFrom]
    split_ifs <;> exact hrefl
  | some buf =>
    rw [copyFileFrom]
    dsimp only
    rw [FreshCopy] at hcopy
    by_cases hdir : dirPart dstPath = []
    · rw [if_pos hdir] at hcopy
      rw [if_pos hdir]
      split_ifs with hsize hcount hfail
      · exact hrefl
      · exact hrefl
      · exact hrefl
      · exact writeFile_spares hgeo h _ _ (Or.inl ⟨.root, hcopy⟩)
    · rw [if_neg hdir] at hcopy
      obtain ⟨hpath, hname, hnew⟩ := hcopy
      have hensure := ensureDirectory_spares hgeo h hpath
      rw [if_neg hdir]
      split_ifs with hsize hcount hfail
      · exact hrefl
      · exact hrefl
      · exact hensure
      · refine hensure.andThen ?_
        rcases ensureDirectory_cases hgeo h hpath with ⟨c, hwalk, heq, hd⟩ | ⟨h', hmade⟩
        · rw [heq]
          exact writeFile_spares hgeo h _ _ (Or.inl ⟨hd, hnew c hwalk⟩)
        · obtain ⟨he, hd⟩ := hmade.resolve_left fun h0 => hfail ⟨hdir, h0⟩
          refine writeFile_spares hgeo h' _ _ ?_
          rw [directoryOf_of_chain he.chain]
          exact he.mayAdd hd hname

end Paths

section Files

variable {fs : FAT32Driver} {dev dev₁ : BlockDevice} {s : Slot} {parentCluster : Nat}

/-- `AppendFile` for a file, or for a name that is new in the form in which it is written. -/
theorem appendFile_spares {name : CString} (data : Buffer) (size : Nat) (hgeo : Geometry fs)
    (h : NamedVolume fs (fs.view dev.store))
    (hd : IsDirectory fs (fs.view dev.store) (fs.directoryOf parentCluster))
    (hfile : ∀ s, fs.findSlot dev name.chars parentCluster = some s →
      ((fs.view dev.store).entry s).isDirectory = false)
    (hnew : fs.findSlot dev name.chars parentCluster = none →
      FatCall.NewName fs (fs.view dev.store) (fs.directoryOf parentCluster) name.eleven) :
    ∃ dev', fs.appendFile dev name data size parentCluster = some dev' ∧
      Passes fs (Spared fs (fs.findSlot dev name.chars parentCluster) (fs.view dev.store)) dev
        dev' := by
  by_cases hsize : size = 0
  · exact ⟨dev, if_pos hsize, Logged.Through.refl (Spared.refl h _)⟩
  cases hs : fs.findSlot dev name.chars parentCluster with
  | none =>
    exact ⟨_, appendFile_new hsize hs,
      writeFile_spares hgeo h data size (Or.inl ⟨hd, hnew hs⟩)⟩
  | some s =>
    have hfile := hfile s hs
    have hc := h.directory_chain hd
    have hfind := hs
    rw [findSlot, findLoop_eq hc] at hfind
    obtain ⟨hlist, hlive⟩ := listed_of_find hd hc hfind
    rcases @appendFile_cases fs dev data _ size parentCluster _ s name hgeo h.sound rfl hd hc hsize
      hfind hfile with ⟨heq, -⟩ | ⟨cs, new, first, dev₁, happ, -, heq⟩
    · exact ⟨dev, heq, Logged.Through.refl (Spared.refl h _)⟩
    · obtain ⟨hmem, hi⟩ := mem_slots.mp (live_subset _ _ s hlive)
      obtain ⟨h2, -, -, h32⟩ := ClusterChain.lt hc hmem
      obtain ⟨hview, hpass⟩ := @writeSlot_view fs (Spared fs (some s) (fs.view dev.store)) _ hgeo
        dev₁ s h2 h32 hi _ (appended_keeps (length_entry (fs.view dev.store) s) size first).1
        fun k hk => read_cluster dev₁ h2 h32 hk
      have hpast : Passes fs (Spared fs (some s) (fs.view dev.store)) dev dev₁ :=
        happ.advance.passes.mono fun _ hw => by
          obtain ⟨hv, hsame, hkept⟩ := happ.file.frame h.sound hlist hfile hw
          exact ⟨h.of_same hv hsame, hkept⟩
      refine ⟨_, heq, hpast.trans (hpass hpast.last ?_)⟩
      rw [← hview]
      obtain ⟨dev', heq', hnamed⟩ := appendFile_named data size hgeo h hd
        (fun t ht => by rw [← Option.some.inj (hs.symm.trans ht)]; exact hfile) hnew
      obtain ⟨dev'', heq'', -, hkept⟩ := appendFile_kept data size hgeo h.sound hd hs hfile
      rw [heq] at heq' heq''
      cases heq'
      cases heq''
      exact ⟨hnamed, hkept⟩

/-- `DeleteFile` for a file: the volume is as it should be at the end, and all the way if there
are no clusters to free. -/
theorem deleteFile_spares (name : List Byte) (hgeo : Geometry fs)
    (h : NamedVolume fs (fs.view dev.store))
    (hd : IsDirectory fs (fs.view dev.store) (fs.directoryOf parentCluster))
    (hfile : ∀ s, (FatCall.deleteFile name parentCluster).target fs dev = some s →
      ((fs.view dev.store).entry s).isDirectory = false) :
    ∃ b dev', fs.deleteFile dev name parentCluster = some (b, dev') ∧
      Spared fs ((FatCall.deleteFile name parentCluster).target fs dev) (fs.view dev.store)
        (fs.view dev'.store) ∧
      (¬(FatCall.deleteFile name parentCluster).FreesClusters fs dev →
        Passes fs (Spared fs ((FatCall.deleteFile name parentCluster).target fs dev)
          (fs.view dev.store)) dev dev') := by
  have hc := h.directory_chain hd
  have htarget : (FatCall.deleteFile name parentCluster).target fs dev =
      (fs.view dev.store).find name (fs.slots [fs.directoryOf parentCluster]) := by
    rw [FatCall.target, searchLoop_eq hc (h.sound.ended _ _ hd hc) (ClusterChain.length_lt hc),
      Option.join_some]
  rcases @deleteFile_cases fs dev name _ parentCluster _ hgeo h.sound rfl hd hc with
    ⟨-, heq⟩ | ⟨s, cs, dev₁, hfind, -, hfree, -, heq⟩
  · exact ⟨false, dev, heq, Spared.refl h _, fun _ => Logged.Through.refl (Spared.refl h _)⟩
  · have hs := htarget.trans hfind
    rw [hs]
    have hend : Spared fs (some s) (fs.view dev.store) (fs.view (fs.writeSlot dev₁
        (BlockDevice.read dev (fs.clusterToLBA s.cluster)) s
        ((fs.view dev.store).entry s).delete).store) := by
      obtain ⟨b, dev', heq', hnamed⟩ := deleteFile_named name hgeo h hd
      obtain ⟨ds, cs', dev'', heq'', -, hdeleted⟩ :=
        deleteFile_deleted hgeo h.sound hd hs (hfile s hs)
      rw [heq] at heq' heq''
      cases heq'
      cases heq''
      exact ⟨hnamed, (hdeleted.frame h.sound).2.2⟩
    refine ⟨true, _, heq, hend, fun hno => ?_⟩
    have h0 : ((fs.view dev.store).entry s).firstCluster = 0 := by
      by_contra h0
      exact hno ⟨s, hs, h0⟩
    rw [if_pos h0] at hfree
    obtain rfl := Option.some.inj hfree
    obtain ⟨hmem, hi⟩ := mem_slots.mp (live_subset _ _ s (mem_of_find hfind))
    obtain ⟨h2, -, -, h32⟩ := ClusterChain.lt hc hmem
    obtain ⟨hview, hpass⟩ := @writeSlot_view fs (Spared fs (some s) (fs.view dev.store)) _ hgeo
      dev s h2 h32 hi _ (DirectoryEntry.length_delete (length_entry (fs.view dev.store) s))
      fun k hk => read_cluster dev h2 h32 hk
    rw [hview] at hend
    exact hpass (Spared.refl h _) hend

end Files

namespace FatOperation

/-- The file that the operation changes, if there is one. -/
def target (fs : FAT32Driver) (dev : BlockDevice) : FatOperation → Option Slot
  | .call c => c.target fs dev
  | _ => none

/-- The operation frees the clusters of a file. -/
def FreesClusters (fs : FAT32Driver) (dev : BlockDevice) : FatOperation → Prop
  | .call c => c.FreesClusters fs dev
  | _ => False

end FatOperation

/-- An operation keeps the names unique and every file but its target, and so does a part of it
when it frees no clusters. -/
theorem FatOperation.spares {fs : FAT32Driver} {dev : BlockDevice} {op : FatOperation}
    (hgeo : Geometry fs) (h : NamedVolume fs (fs.view dev.store)) (hop : op.Fresh fs dev)
    (hfile : ∀ s, op.target fs dev = some s → ((fs.view dev.store).entry s).isDirectory = false) :
    ∃ dev', op.run fs dev = some dev' ∧
      Spared fs (op.target fs dev) (fs.view dev.store) (fs.view dev'.store) ∧
      (¬op.FreesClusters fs dev →
        Passes fs (Spared fs (op.target fs dev) (fs.view dev.store)) dev dev') := by
  have hsafe {dev' : BlockDevice} (hrun : op.run fs dev = some dev')
      (hpass : Passes fs (Spared fs (op.target fs dev) (fs.view dev.store)) dev dev') :
      ∃ dev', op.run fs dev = some dev' ∧
        Spared fs (op.target fs dev) (fs.view dev.store) (fs.view dev'.store) ∧
        (¬op.FreesClusters fs dev →
          Passes fs (Spared fs (op.target fs dev) (fs.view dev.store)) dev dev') :=
    ⟨dev', hrun, hpass.last, fun _ => hpass⟩
  cases op with
  | call c =>
    obtain ⟨hd, hcall⟩ := hop
    cases c with
    | writeFile name data size p =>
      exact hsafe rfl (writeFile_spares hgeo h data size (Or.inl ⟨hd, hcall⟩))
    | createDirectory name p => exact hsafe rfl (createDirectory_spares hgeo h (Or.inl ⟨hd, hcall⟩))
    | appendFile name data size p =>
      obtain ⟨dev', heq, hpass⟩ := @appendFile_spares fs dev p name data size hgeo h hd hfile
        (fun hs => by simpa only [hs] using hcall)
      exact hsafe heq hpass
    | deleteFile name p =>
      obtain ⟨b, dev', heq, hend, hpass⟩ := deleteFile_spares name hgeo h hd hfile
      exact ⟨dev', congrArg (Option.map Prod.snd) heq, hend, hpass⟩
  | ensureDirectory path => exact hsafe rfl (ensureDirectory_spares hgeo h hop)
  | copyFileFrom srcFs srcDev srcPath dstPath memory =>
    exact hsafe rfl (copyFileFrom_spares hgeo h hop srcFs srcDev srcPath memory)

end Sylphia
