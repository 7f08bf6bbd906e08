import Sylphia.Fat.Calls

/-!
# Interrupted calls

A call may stop after any of its sector writes. What is on the disk then is sound as long
as new clusters are taken before an entry names them; `DeleteFile` gives clusters back
before it marks the entry that names them.
-/

namespace Sylphia

open Bytes WriteLog Chain FAT32Driver

/-- The clusters that a reader meets from `c` on. -/
inductive Visits (V : View) : Nat → Nat → Prop
  | here {c : Nat} : 2 ≤ c → c < endOfChain → Visits V c c
  | next {c x : Nat} : 2 ≤ c → c < endOfChain → Visits V (V.next c) x → Visits V c x

/-- No cluster on the chain of an entry is free in the first FAT. -/
def ChainsInUse (fs : FAT32Driver) (V : View) : Prop :=
  ∀ s c x, Owns fs V (.slot s) c → Visits V c x → V.fat x ≠ 0

section Views

variable {fs : FAT32Driver} {V V' : View} {c d x : Nat} {cs ds : List Nat} {s : Slot}

theorem Visits.mem (h : Visits V c x) (hc : ClusterChain fs V c cs) : x ∈ cs := by
  induction h generalizing cs with
  | here => exact hc.head_mem
  | @next c x _ _ hrest ih =>
    cases hc with
    | last _ hends =>
      have hends : endOfChain ≤ V.next c := hends
      cases hrest with
      | here _ hlt => exact absurd hlt (Nat.not_lt.mpr hends)
      | next _ hlt _ => exact absurd hlt (Nat.not_lt.mpr hends)
    | cons _ hc' => exact List.mem_cons_of_mem _ (ih hc')

theorem chainsInUse_of_chains (h : ∀ o c, Owns fs V o c → ∃ cs, ClusterChain fs V c cs) :
    ChainsInUse fs V := by
  intro s c x ho hx
  obtain ⟨cs, hc⟩ := h (.slot s) c ho
  exact fat_ne_zero hc (hx.mem hc)

theorem SoundVolume.chainsInUse (h : SoundVolume fs V) : ChainsInUse fs V :=
  chainsInUse_of_chains h.chains

/-- The directories on paths that do not use the entry `s`. -/
private inductive Avoids (fs : FAT32Driver) (V : View) (s : Slot) : Nat → Prop
  | root : Avoids fs V s fs.rootClus
  | sub {d : Nat} {ds : List Nat} {t : Slot} : Avoids fs V s d → ClusterChain fs V d ds →
      t ∈ V.live (fs.slots ds) → (V.entry t).isDirectory = true → (V.entry t).isDot = false →
      (V.entry t).firstCluster ≠ 0 → t ≠ s → Avoids fs V s (V.entry t).firstCluster

private theorem Avoids.isDirectory (h : Avoids fs V s d) : IsDirectory fs V d := by
  induction h with
  | root => exact .root
  | sub _ hc ht hdir hdot h0 _ ih => exact .sub ih hc ht hdir hdot h0

/-- The directory of an entry is not reached through the entry. -/
private theorem avoids_of_mem (hv : SoundVolume fs V) (hd : IsDirectory fs V d)
    (hc : ClusterChain fs V d ds) (hs : s ∈ V.live (fs.slots ds)) : Avoids fs V s d := by
  have hcases {b : Nat} (hb : IsDirectory fs V b) : Avoids fs V s b ∨
      ∃ a as, Avoids fs V s a ∧ ClusterChain fs V a as ∧ s ∈ V.live (fs.slots as) := by
    induction hb with
    | root => exact Or.inl .root
    | @sub a as t _ ha ht hdir hdot h0 ih =>
      rcases ih with havoid | hright
      · by_cases hts : t = s
        · exact Or.inr ⟨a, as, havoid, ha, hts ▸ ht⟩
        · exact Or.inl (.sub havoid ha ht hdir hdot h0 hts)
      · exact Or.inr hright
  rcases hcases hd with havoid | ⟨a, as, havoid, ha, hsa⟩
  · exact havoid
  · have hmem := (mem_slots.mp (live_subset V _ s hs)).1
    have hmem' := (mem_slots.mp (live_subset V _ s hsa)).1
    rwa [hv.directory_unique hd havoid.isDirectory hc ha hmem hmem']

/-- With its first cluster free, an entry is still there. -/
theorem not_chainsInUse_setFat (hv : SoundVolume fs V) (hs : Listed fs V s)
    (h0 : (V.entry s).firstCluster ≠ 0) :
    ¬ChainsInUse fs (V.setFat (V.entry s).firstCluster 0) := by
  obtain ⟨d, ds, hd, hc, hlive, hdot⟩ := hs
  have hs : Listed fs V s := ⟨d, ds, hd, hc, hlive, hdot⟩
  obtain ⟨cs, hcs⟩ := hv.chains (.slot s) _ ⟨hs, rfl, h0⟩
  have hkeep {o : Owner} {b : Nat} {bs : List Nat} (ho : Owns fs V o b) (hne : o ≠ .slot s)
      (hb : ClusterChain fs V b bs) :
      ClusterChain fs (V.setFat (V.entry s).firstCluster 0) b bs := by
    refine hb.congr fun x hx => ?_
    have hxc : x ≠ (V.entry s).firstCluster := by
      rintro rfl
      exact hv.disjoint o (.slot s) b _ bs cs ho ⟨hs, rfl, h0⟩ hne hb hcs _ hx hcs.head_mem
    rw [View.next, View.next, View.setFat_fat_of_ne V hxc]
  have howner {b : Nat} (hb : Avoids fs V s b) : ∃ o, Owns fs V o b ∧ o ≠ .slot s := by
    cases hb with
    | root => exact ⟨.root, rfl, by simp⟩
    | @sub a as t ha hca ht hdir hdot h0 hts =>
      exact ⟨.slot t, ⟨⟨a, as, ha.isDirectory, hca, ht, hdot⟩, rfl, h0⟩,
        fun heq => hts (Owner.slot.inj heq)⟩
  have hlives (as : List Nat) :
      (V.setFat (V.entry s).firstCluster 0).live (fs.slots as) = V.live (fs.slots as) :=
    live_congr fun _ _ => rfl
  have hdirs {b : Nat} (hb : Avoids fs V s b) :
      IsDirectory fs (V.setFat (V.entry s).firstCluster 0) b := by
    induction hb with
    | root => exact .root
    | @sub a as t ha hca ht hdir hdot h0 hts ih =>
      obtain ⟨o, ho, hne⟩ := howner ha
      exact .sub ih (hkeep ho hne hca) (hlives as ▸ ht) hdir hdot h0
  have havoid := avoids_of_mem hv hd hc hlive
  obtain ⟨o, ho, hne⟩ := howner havoid
  intro hsafe
  refine hsafe s (V.entry s).firstCluster (V.entry s).firstCluster
    ⟨⟨d, ds, hdirs havoid, hkeep ho hne hc, hlives ds ▸ hlive, hdot⟩, rfl, h0⟩
    (.here hcs.valid_head.1 hcs.valid_head.2.2) (View.setFat_fat_self ..)

end Views

/-- Every chain ends, in clusters that are in use, and no two owners share a cluster. -/
structure ChainsApart (fs : FAT32Driver) (V : View) : Prop where
  chains : ∀ o c, Owns fs V o c → ∃ cs, ClusterChain fs V c cs
  disjoint : ∀ o o' c c' cs cs', Owns fs V o c → Owns fs V o' c' → o ≠ o' →
    ClusterChain fs V c cs → ClusterChain fs V c' cs' → ∀ x ∈ cs, x ∉ cs'

/-- Directories are in order, and a file that is not empty has clusters. -/
structure Orderly (fs : FAT32Driver) (V : View) : Prop where
  ended : ∀ d ds, IsDirectory fs V d → ClusterChain fs V d ds → V.Ended (fs.slots ds)
  sized : ∀ s, Listed fs V s → (V.entry s).isDirectory = false → (V.entry s).fileSize > 0 →
    (V.entry s).firstCluster ≠ 0

theorem ChainsApart.sound {fs : FAT32Driver} {V : View} (h : ChainsApart fs V)
    (ho : Orderly fs V) : SoundVolume fs V :=
  ⟨h.chains, h.disjoint, ho.ended, ho.sized⟩

theorem SoundVolume.chainsApart {fs : FAT32Driver} {V : View} (h : SoundVolume fs V) :
    ChainsApart fs V :=
  ⟨h.chains, h.disjoint⟩

theorem SoundVolume.orderly {fs : FAT32Driver} {V : View} (h : SoundVolume fs V) : Orderly fs V :=
  ⟨h.ended, h.sized⟩

namespace FatCall

/-- `DeleteFile` for an entry that has clusters. -/
def FreesClusters (fs : FAT32Driver) (dev : BlockDevice) : FatCall → Prop
  | .deleteFile name p => ∃ s, (FatCall.deleteFile name p).target fs dev = some s ∧
      ((fs.view dev.store).entry s).firstCluster ≠ 0
  | _ => False

/-- On a volume with its directories in order the call is made in one of them, `AppendFile` is not
for a directory, and `DeleteFile` is not for an entry that has clusters. -/
structure MayStop (fs : FAT32Driver) (dev : BlockDevice) (call : FatCall) : Prop where
  orderly : Orderly fs (fs.view dev.store)
  inVolume : call.InVolume fs dev
  keeps : ¬call.FreesClusters fs dev

/-- The call returns, and no cluster on a chain is free after any of its sector writes. -/
def Consistent (fs : FAT32Driver) (disk : Disk) (call : FatCall) : Prop :=
  ∃ dev', call.run fs ⟨disk, []⟩ = some dev' ∧
    ∀ ws, ws <+: dev'.log → ChainsInUse fs (fs.view (replay ws disk))

end FatCall

section Calls

variable {fs : FAT32Driver} {dev dev₁ : BlockDevice} {name : List Byte} {data : Buffer} {s : Slot}
  {d first size parentCluster : Nat} {attr : Byte} {ds new : List Nat}

/-- The last write of a call that makes an entry. -/
private theorem addEntry_safe (hgeo : Geometry fs) (hv : SoundVolume fs (fs.view dev.store))
    (hg : Lengthens fs (fs.view dev.store) (fs.view dev₁.store) [] new)
    (hadv : Advance fs (fs.view dev.store) [] dev dev₁)
    (hd : IsDirectory fs (fs.view dev.store) (fs.directoryOf parentCluster))
    (hname : name.length = 11) (hfirst : new.head? = some first)
    (hempty : attr &&& 0x10#8 ≠ 0 → (fs.view dev₁.store).Ended (fs.slots new) ∧
      ∀ t ∈ (fs.view dev₁.store).live (fs.slots new), ((fs.view dev₁.store).entry t).isDot = true) :
    Passes fs (ChainsInUse fs) dev
      (fs.addDirectoryEntry dev₁ name first size attr parentCluster) := by
  obtain ⟨hv₁, hsame, -⟩ := hg.within.frame_none hv
  obtain ⟨ds, hc⟩ := hv.directory_chain hd
  have hd₁ := (hsame.isDirectory_iff hv).mpr hd
  have hc₁ := (hsame _ ds hd hc).1
  obtain ⟨h2, -, -, h32⟩ := ClusterChain.lt hc₁ hc₁.head_mem
  have hpast : Passes fs (ChainsInUse fs) dev dev₁ :=
    hadv.passes.mono fun _ hw => (Within.frame_none hw hv).1.chainsInUse
  rcases @addDirectoryEntry_eq fs dev₁ _ name first size parentCluster attr rfl h2 h32 with
    ⟨heq, -⟩ | ⟨i, hi, hfree, hbefore, heq⟩
  · rw [heq]
    exact hpast
  · have hlen := DirectoryEntry.length_create hname first size attr
    have howns : Acquires fs (fs.view dev₁.store) ⟨fs.directoryOf parentCluster, i⟩
        (.create name first size attr) := acquires_create hv hg hname hfirst hempty
    have hwrite := publish_write hd₁ hc₁ hi hfree hbefore hlen howns
    have hback := publish_back hv₁ hd₁ hc₁ hi hfree hbefore hlen howns
    obtain ⟨-, hpass⟩ := @writeSlot_view fs (ChainsInUse fs) _ hgeo dev₁
      ⟨fs.directoryOf parentCluster, i⟩ h2 h32 hi _ hlen fun k hk => read_cluster dev₁ h2 h32 hk
    rw [heq]
    exact hpast.trans (hpass hv₁.chainsInUse
      (chainsInUse_of_chains fun _ _ ho => hwrite.chains hv₁ hback ho))

private theorem writeFile_safe (data : Buffer) (size : Nat) (hgeo : Geometry fs)
    (hv : SoundVolume fs (fs.view dev.store))
    (hd : IsDirectory fs (fs.view dev.store) (fs.directoryOf parentCluster))
    (hname : name.length = 11) :
    Passes fs (ChainsInUse fs) dev (fs.writeFile dev name data size parentCluster) := by
  by_cases hsize : size = 0
  · rw [writeFile_empty hsize]
    exact Logged.Through.refl hv.chainsInUse
  · obtain ⟨new, dev₁, hg, hadv, ⟨heq, -⟩ | ⟨first, hfirst, -, -, heq⟩⟩ :=
      @writeFile_cases fs dev name data size parentCluster hgeo hsize
    · rw [heq]
      exact hadv.passes.mono fun _ hw => (Within.frame_none hw hv).1.chainsInUse
    · rw [heq]
      exact addEntry_safe hgeo hv hg hadv hd hname hfirst fun h => absurd rfl h

private theorem createDirectory_safe (hgeo : Geometry fs) (hv : SoundVolume fs (fs.view dev.store))
    (hd : IsDirectory fs (fs.view dev.store) (fs.directoryOf parentCluster))
    (hname : name.length = 11) :
    Passes fs (ChainsInUse fs) dev (fs.createDirectory dev name parentCluster).2 := by
  rcases @createDirectory_cases fs dev name parentCluster hgeo with
    ⟨heq, -⟩ | ⟨c, dev₁, hg, hadv, hdata, heq⟩
  · rw [heq]
    exact Logged.Through.refl hv.chainsInUse
  · rw [heq]
    exact addEntry_safe hgeo hv hg hadv hd hname rfl fun _ => dotEntries_empty hdata

private theorem appendFile_safe {name : CString} (data : Buffer) (size : Nat) (hgeo : Geometry fs)
    (hv : SoundVolume fs (fs.view dev.store))
    (hd : IsDirectory fs (fs.view dev.store) (fs.directoryOf parentCluster))
    (hfile : ∀ s, fs.findSlot dev name.chars parentCluster = some s →
      ((fs.view dev.store).entry s).isDirectory = false) :
    ∃ dev', fs.appendFile dev name data size parentCluster = some dev' ∧
      Passes fs (ChainsInUse fs) dev dev' := by
  by_cases hsize : size = 0
  · exact ⟨dev, if_pos hsize, Logged.Through.refl hv.chainsInUse⟩
  · obtain ⟨ds, hc⟩ := hv.directory_chain hd
    have hfind : fs.findSlot dev name.chars parentCluster =
        (fs.view dev.store).find name.chars (fs.slots (ds.take 10001)) := findLoop_eq hc _
    rw [hfind] at hfile
    cases hs : (fs.view dev.store).find name.chars (fs.slots (ds.take 10001)) with
    | none =>
      exact ⟨_, appendFile_new hsize (hfind.trans hs),
        writeFile_safe data size hgeo hv hd name.length_eleven⟩
    | some s =>
      have hfile := hfile s hs
      obtain ⟨hlist, hlive⟩ := listed_of_find hd hc hs
      obtain ⟨pre, post, hslots, hpre⟩ := split_of_mem_live hlive
      rcases @appendFile_cases fs dev data _ size parentCluster ds s name hgeo hv rfl hd hc hsize hs
        hfile with ⟨heq, -⟩ | ⟨cs, new, first, dev₁, happ, -, heq⟩
      · exact ⟨dev, heq, Logged.Through.refl hv.chainsInUse⟩
      · obtain ⟨hv₁, -, -⟩ := happ.frame hv hlist hfile
        have hchange := happ.change hv hlist hfile size hd hc hslots hpre
        obtain ⟨hmem, hi⟩ := mem_slots.mp (live_subset _ _ s hlive)
        obtain ⟨h2, -, -, h32⟩ := ClusterChain.lt hc hmem
        obtain ⟨-, hpass⟩ := @writeSlot_view fs (ChainsInUse fs) _ hgeo dev₁ s h2 h32 hi _
          (appended_keeps (length_entry (fs.view dev.store) s) size first).1
          fun k hk => read_cluster dev₁ h2 h32 hk
        have hpast : Passes fs (ChainsInUse fs) dev dev₁ := happ.advance.passes.mono fun _ hw =>
          (happ.file.frame hv hlist hfile hw).1.chainsInUse
        exact ⟨_, heq, hpast.trans (hpass hv₁.chainsInUse (hchange.sound hv₁).chainsInUse)⟩

private theorem freeChainLoop_logged {n c : Nat} (h : fs.freeChainLoop n dev c = some dev₁) :
    Passes fs (fun _ => True) dev dev₁ := by
  induction n generalizing dev c with
  | zero => cases h
  | succ n ih =>
    rw [freeChainLoop] at h
    split at h
    · have hlink : Passes fs (fun _ => True) dev (fs.linkCluster dev c 0) :=
        ((Logged.Through.refl trivial).write trivial).write trivial
      exact hlink.trans (ih h)
    · rw [← Option.some.inj h]
      exact Logged.Through.refl trivial

private theorem writeSlot_logged {buf : Buffer} {e : DirectoryEntry} :
    Passes fs (fun _ => True) dev (fs.writeSlot dev buf s e) :=
  (Logged.Through.refl trivial).write trivial

/-- `DeleteFile` is safe exactly when there are no clusters to free. -/
private theorem deleteFile_safe (name : List Byte) (hgeo : Geometry fs)
    (hv : SoundVolume fs (fs.view dev.store))
    (hd : IsDirectory fs (fs.view dev.store) (fs.directoryOf parentCluster)) :
    ∃ found dev', fs.deleteFile dev name parentCluster = some (found, dev') ∧
      Passes fs (fun _ => True) dev dev' ∧ (Passes fs (ChainsInUse fs) dev dev' ↔
        ¬(FatCall.deleteFile name parentCluster).FreesClusters fs dev) := by
  obtain ⟨ds, hc⟩ := hv.directory_chain hd
  have htarget : (FatCall.deleteFile name parentCluster).target fs dev =
      (fs.view dev.store).find name (fs.slots ds) := by
    rw [FatCall.target, searchLoop_eq hc (hv.ended _ ds hd hc) (ClusterChain.length_lt hc),
      Option.join_some]
  rw [FatCall.FreesClusters, htarget]
  obtain ⟨hnone, heq⟩ | ⟨s, cs, dev₁, hfind, hchain, hfree, ⟨hview, -⟩, heq⟩ :=
    @deleteFile_cases fs dev name _ parentCluster ds hgeo hv rfl hd hc
  · refine ⟨false, dev, heq, Logged.Through.refl trivial, iff_of_true
      (Logged.Through.refl hv.chainsInUse) ?_⟩
    rw [hnone]
    rintro ⟨s, hs, -⟩
    cases hs
  · have hlive := mem_of_find hfind
    have hlist : Listed fs (fs.view dev.store) s :=
      ⟨_, ds, hd, hc, hlive, isDot_of_isNameEqual (name_of_find hfind)⟩
    obtain ⟨hmem, hi⟩ := mem_slots.mp (live_subset _ _ s hlive)
    obtain ⟨h2, -, -, h32⟩ := ClusterChain.lt hc hmem
    by_cases h0 : ((fs.view dev.store).entry s).firstCluster = 0
    · rw [if_pos h0] at hfree
      obtain rfl := Option.some.inj hfree
      obtain ⟨pre, post, hslots, hpre⟩ := split_of_mem_live hlive
      have hchange := delete_change hd hc hslots hpre
      obtain ⟨-, hpass⟩ := @writeSlot_view fs (ChainsInUse fs) _ hgeo dev s h2 h32 hi _
        (DirectoryEntry.length_delete (length_entry (fs.view dev.store) s))
        fun k hk => read_cluster dev h2 h32 hk
      refine ⟨true, _, heq, writeSlot_logged, iff_of_true
        (hpass hv.chainsInUse (hchange.sound hv).chainsInUse) ?_⟩
      rintro ⟨t, ht, ht0⟩
      rw [hfind] at ht
      exact ht0 (Option.some.inj ht ▸ h0)
    · rw [if_neg h0] at hfree
      obtain ⟨cs', hcs⟩ := hv.chains (.slot s) _ ⟨hlist, rfl, h0⟩
      have hvalid := hcs.valid_head
      -- The first write of `FreeChain` frees the cluster that the entry names.
      rw [freeChain, show loopBound = 2 ^ 28 + 1 from rfl, freeChainLoop,
        if_pos ⟨hvalid.1, hvalid.2.2⟩] at hfree
      obtain ⟨hlink, hpass⟩ := @linkCluster_view fs (fun _ => True) _ hgeo dev hvalid.2.1 0
      have hrest : Passes fs (fun _ => True) (fs.linkCluster dev _ 0) dev₁ :=
        freeChainLoop_logged hfree
      refine ⟨true, _, heq, (hpass trivial trivial).trans (hrest.trans writeSlot_logged),
        iff_of_false (fun hsafe => ?_) (not_not.mpr ⟨s, hfind, h0⟩)⟩
      have hmid := hsafe.mid (hpass trivial trivial) (hrest.trans writeSlot_logged)
      rw [hlink, Nat.zero_mod] at hmid
      exact not_chainsInUse_setFat hv hlist h0 hmid

theorem consistent_iff (call : FatCall) {disk : Disk} (hgeo : Geometry fs)
    (hv : SoundVolume fs (fs.view disk)) (hcall : call.InVolume fs ⟨disk, []⟩) :
    call.Consistent fs disk ↔ ¬call.FreesClusters fs ⟨disk, []⟩ := by
  obtain ⟨hd, hcall⟩ := hcall
  have hsafe {dev' : BlockDevice} (heq : call.run fs ⟨disk, []⟩ = some dev')
      (h : Passes fs (ChainsInUse fs) ⟨disk, []⟩ dev')
      (hno : ¬call.FreesClusters fs ⟨disk, []⟩) :
      call.Consistent fs disk ↔ ¬call.FreesClusters fs ⟨disk, []⟩ :=
    iff_of_true ⟨dev', heq, (Logged.through_iff (h.mono fun _ _ => trivial)).mp h⟩ hno
  cases call with
  | writeFile name data size p =>
    exact hsafe rfl (writeFile_safe data size hgeo hv hd hcall) id
  | createDirectory name p =>
    exact hsafe rfl (createDirectory_safe hgeo hv hd hcall) id
  | appendFile name data size p =>
    obtain ⟨dev', heq, hpass⟩ := appendFile_safe data size hgeo hv hd hcall
    exact hsafe heq hpass id
  | deleteFile name p =>
    obtain ⟨found, dev', heq, hlogged, hiff⟩ := deleteFile_safe name hgeo hv hd
    have hrun : (FatCall.deleteFile name p).run fs ⟨disk, []⟩ = some dev' :=
      congrArg (Option.map Prod.snd) heq
    refine Iff.trans ?_ ((Logged.through_iff (hlogged.mono fun _ _ => trivial)).symm.trans hiff)
    rw [FatCall.Consistent, hrun]
    simp

/-- A call may be interrupted after any of its sector writes when it meets the condition, and among
the calls in a directory of an orderly volume, for no directory, only then. -/
theorem crash_consistent_when (call : FatCall) {disk : Disk} (hgeo : Geometry fs)
    (hv : ChainsApart fs (fs.view disk)) :
    (call.MayStop fs ⟨disk, []⟩ → call.Consistent fs disk) ∧
      (Orderly fs (fs.view disk) → call.InVolume fs ⟨disk, []⟩ → call.Consistent fs disk →
        call.MayStop fs ⟨disk, []⟩) := by
  constructor
  · intro h
    exact (consistent_iff call hgeo (hv.sound h.orderly) h.inVolume).mpr h.keeps
  · intro ho hcall h
    exact ⟨ho, hcall, (consistent_iff call hgeo (hv.sound ho) hcall).mp h⟩

/-- The file `A` is deleted, and stopped after some of the writes. -/
private theorem oneFileDisk_frees :
    (FatCall.deleteFile [0x41#8] 0).FreesClusters smallVolume ⟨oneFileDisk.store, []⟩ := by
  have heval : (FatCall.deleteFile [0x41#8] 0).target smallVolume ⟨oneFileDisk.store, []⟩ =
      some ⟨2, 0⟩ ∧ ((smallVolume.view oneFileDisk.store).entry ⟨2, 0⟩).firstCluster ≠ 0 := by
    decide +kernel
  exact ⟨⟨2, 0⟩, heval⟩

/-- An `AppendFile` for the file `A` may stop anywhere, a `DeleteFile` for it may not. -/
theorem crash_consistent_when_small :
    (FatCall.appendFile ⟨[0x61#8], []⟩ (fun k => BitVec.ofNat 8 k) 600 0).Consistent smallVolume
        oneFileDisk.store ∧
      ¬(FatCall.deleteFile [0x41#8] 0).Consistent smallVolume oneFileDisk.store := by
  have hv := oneFileDisk_sound
  have heval : smallVolume.findSlot ⟨oneFileDisk.store, []⟩ [0x61#8] 0 = some ⟨2, 0⟩ ∧
      ((smallVolume.view oneFileDisk.store).entry ⟨2, 0⟩).isDirectory = false := by
    decide +kernel
  constructor
  · refine (crash_consistent_when _ smallVolume_geometry hv.chainsApart).1
      ⟨hv.orderly, ⟨.root, fun s hs => ?_⟩, id⟩
    obtain rfl := Option.some.inj (heval.1.symm.trans hs)
    exact heval.2
  · intro h
    exact ((crash_consistent_when _ smallVolume_geometry hv.chainsApart).2 hv.orderly
      ⟨.root, trivial⟩ h).keeps oneFileDisk_frees

/-- A `DeleteFile` that is interrupted leaves an entry whose first cluster is free. -/
theorem delete_interrupted : Geometry smallVolume ∧
    ChainsApart smallVolume (smallVolume.view oneFileDisk.store) ∧
    Orderly smallVolume (smallVolume.view oneFileDisk.store) ∧
    (FatCall.deleteFile [0x41#8] 0).InVolume smallVolume ⟨oneFileDisk.store, []⟩ ∧
    ∃ dev', (FatCall.deleteFile [0x41#8] 0).run smallVolume ⟨oneFileDisk.store, []⟩ = some dev' ∧
      ∃ ws, ws <+: dev'.log ∧
        ¬ChainsInUse smallVolume (smallVolume.view (replay ws oneFileDisk.store)) := by
  obtain ⟨found, dev', heq, hlogged, hiff⟩ := @deleteFile_safe smallVolume ⟨oneFileDisk.store, []⟩ 0
    [0x41#8] smallVolume_geometry oneFileDisk_sound .root
  refine ⟨smallVolume_geometry, oneFileDisk_sound.chainsApart, oneFileDisk_sound.orderly,
    ⟨.root, trivial⟩, dev', congrArg (Option.map Prod.snd) heq, ?_⟩
  have hunsafe : ¬∀ ws, ws <+: dev'.log → ChainsInUse smallVolume (smallVolume.view
      (replay ws oneFileDisk.store)) := fun hall =>
    hiff.mp ((Logged.through_iff (hlogged.mono fun _ _ => trivial)).mpr hall) oneFileDisk_frees
  simpa using hunsafe

end Calls

end Sylphia
