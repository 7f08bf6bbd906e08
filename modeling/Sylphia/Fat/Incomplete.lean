import Sylphia.Fat.WellFormed

/-!
# Calls that cannot complete

A call stops when there is no free cluster left, or when the first cluster of the directory
has no free slot. What it has taken by then stays taken.
-/

namespace Sylphia

open Bytes WriteLog Chain FAT32Driver

/-- The same clusters are in use, and no file is longer than its clusters. -/
def Unharmed (fs : FAT32Driver) (V V' : View) : Prop :=
  (∀ x, V'.fat x ≠ 0 ↔ V.fat x ≠ 0) ∧
    ∀ s cs, Listed fs V' s → (V'.entry s).isDirectory = false → FileChain fs V' s cs →
      (V'.entry s).fileSize ≤ cs.length * fs.clusterBytes

namespace FatCall

/-- A call that makes an entry for `size` bytes finds too few clusters, or no slot. -/
def LacksRoom (fs : FAT32Driver) (V : View) (size parentCluster : Nat) : Prop :=
  V.freeClusters.length < fs.clustersFor size ∨ ¬FreeSlot fs V (fs.directoryOf parentCluster)

/-- The call cannot complete: `AllocateCluster` gives 0 at some point, as there are fewer free
clusters than the call needs, or `AddDirectoryEntry` finds no free slot. -/
def Incomplete (fs : FAT32Driver) (dev : BlockDevice) : FatCall → Prop
  | .writeFile _ _ size p => size ≠ 0 ∧ LacksRoom fs (fs.view dev.store) size p
  | .createDirectory _ p => DiskFull (fs.view dev.store) ∨
      ¬FreeSlot fs (fs.view dev.store) (fs.directoryOf p)
  | .appendFile name _ size p => size ≠ 0 ∧
      match fs.findSlot dev name.chars p with
      | none => LacksRoom fs (fs.view dev.store) size p
      | some s => (fs.view dev.store).freeClusters.length <
          (if ((fs.view dev.store).entry s).firstCluster = 0 then 1 else 0) +
            fs.clustersFor (size - fs.roomInLast ((fs.view dev.store).entry s).fileSize)
  | .deleteFile _ _ => False

/-- No cluster is free, and where `AppendFile` is for a file that has clusters, these have
room for the size that it records. -/
def Harmless (fs : FAT32Driver) (dev : BlockDevice) (call : FatCall) : Prop :=
  DiskFull (fs.view dev.store) ∧
    match call with
    | .appendFile name _ size p => ∀ s cs, fs.findSlot dev name.chars p = some s →
        ClusterChain fs (fs.view dev.store) ((fs.view dev.store).entry s).firstCluster cs →
        (((fs.view dev.store).entry s).fileSize + size) % 2 ^ 32 ≤ cs.length * fs.clusterBytes
    | _ => True

/-- The call is made in a directory of the volume, `AppendFile` is not for a directory, and there is
nothing that it could take. -/
structure TakesNothing (fs : FAT32Driver) (dev : BlockDevice) (call : FatCall) : Prop where
  inVolume : call.InVolume fs dev
  harmless : call.Harmless fs dev

/-- The call returns and does no harm, and `CreateDirectory` returns 0. -/
def Undone (fs : FAT32Driver) (dev : BlockDevice) (call : FatCall) : Prop :=
  (∃ dev', call.run fs dev = some dev' ∧ Unharmed fs (fs.view dev.store) (fs.view dev'.store)) ∧
    ∀ name p, call = .createDirectory name p → (fs.createDirectory dev name p).1 = 0

end FatCall

section Cases

variable {fs : FAT32Driver} {dev dev₁ : BlockDevice} {V V' : View} {name : List Byte}
  {data : Buffer} {s : Slot} {first size parentCluster : Nat} {attr : Byte} {cs new : List Nat}

theorem WellFormed.size_le (h : WellFormed fs dev.store) (hgeo : Geometry fs)
    (hs : Listed fs (fs.view dev.store) s)
    (hfile : ((fs.view dev.store).entry s).isDirectory = false)
    (hc : FileChain fs (fs.view dev.store) s cs) :
    ((fs.view dev.store).entry s).fileSize ≤ cs.length * fs.clusterBytes := by
  rcases Nat.eq_zero_or_pos ((fs.view dev.store).entry s).fileSize with h0 | hpos
  · rw [h0]
    exact Nat.zero_le _
  · have hfirst := h.sound.sized s hs hfile hpos
    have hchain := hc.resolve_left fun hz => hfirst hz.1
    rw [h.exact s cs hs hfile hpos hchain]
    exact (clustersFor_spec (clusterBytes_pos hgeo) _).1

theorem WellFormed.unharmed (h : WellFormed fs dev.store) (hgeo : Geometry fs)
    (hview : fs.view dev₁.store = fs.view dev.store) :
    Unharmed fs (fs.view dev.store) (fs.view dev₁.store) := by
  rw [hview]
  exact ⟨fun _ => Iff.rfl, fun _ _ hs hfile hc => h.size_le hgeo hs hfile hc⟩

/-- A cluster that has been taken is seen in the FAT. -/
theorem Lengthens.not_unharmed (h : Lengthens fs V V' cs new) {W : View} (hfat : W.fat = V'.fat)
    {c : Nat} (hc : c ∈ new) : ¬Unharmed fs V W := by
  intro hu
  obtain ⟨b, hb⟩ := h.exists_chain (List.mem_append_right cs hc)
  refine (hu.1 c).mp ?_ (h.free c hc).2.2
  rw [hfat]
  exact fat_ne_zero hb (List.mem_append_right cs hc)

theorem Lengthens.view_eq (h : Lengthens fs V V' [] []) : V' = V :=
  View.ext (funext fun x => h.fat x (by simp) (by simp))
    (funext fun x => h.data x (by simp) (by simp))

/-- Without a free slot no entry is made. -/
private theorem addEntry_full (hv : SoundVolume fs (fs.view dev.store))
    (hg : Lengthens fs (fs.view dev.store) (fs.view dev₁.store) [] new)
    (hd : IsDirectory fs (fs.view dev.store) (fs.directoryOf parentCluster))
    (hslot : ¬FreeSlot fs (fs.view dev.store) (fs.directoryOf parentCluster)) :
    fs.addDirectoryEntry dev₁ name first size attr parentCluster = dev₁ := by
  obtain ⟨-, hsame, -⟩ := hg.within.frame_none hv
  obtain ⟨ds, hc⟩ := hv.directory_chain hd
  obtain ⟨h2, -, -, h32⟩ := ClusterChain.lt hc hc.head_mem
  rcases @addDirectoryEntry_eq fs dev₁ _ name first size parentCluster attr rfl h2 h32 with
    ⟨heq, -⟩ | ⟨i, hi, hfree, -, -⟩
  · exact heq
  · rw [hsame.entry hd hc (mem_slots.mpr ⟨hc.head_mem, hi⟩)] at hfree
    exact absurd ⟨i, hi, hfree⟩ hslot

/-- `WriteFile` without room does no harm exactly when no cluster is free. -/
theorem writeFile_incomplete (name : List Byte) (data : Buffer) (h : WellFormed fs dev.store)
    (hgeo : Geometry fs)
    (hd : IsDirectory fs (fs.view dev.store) (fs.directoryOf parentCluster)) (hsize : size ≠ 0)
    (hroom : FatCall.LacksRoom fs (fs.view dev.store) size parentCluster) :
    Unharmed fs (fs.view dev.store)
        (fs.view (fs.writeFile dev name data size parentCluster).store) ↔
      DiskFull (fs.view dev.store) := by
  obtain ⟨new, dev₁, hg, -, hres⟩ := @writeFile_cases fs dev name data size parentCluster hgeo hsize
  have hout : fs.writeFile dev name data size parentCluster = dev₁ ∧
      (new = [] → DiskFull (fs.view dev.store)) := by
    rcases hres with ⟨heq, -, hfull⟩ | ⟨first, hfirst, hlen, -, heq⟩
    · refine ⟨heq, fun hnil => ?_⟩
      rw [diskFull_iff, List.eq_nil_iff_forall_not_mem]
      intro c hc
      have := hg.mem_of_full (fun x hx => by cases hx) hfull hc
      rw [hnil] at this
      cases this
    · have hslot : ¬FreeSlot fs (fs.view dev.store) (fs.directoryOf parentCluster) := by
        refine hroom.resolve_left fun hlt => ?_
        have hle := hg.length_le_freeClusters
        omega
      refine ⟨heq.trans (addEntry_full h.sound hg hd hslot), fun hnil => ?_⟩
      rw [hnil] at hfirst
      cases hfirst
  rw [hout.1]
  constructor
  · intro hu
    refine hout.2 ?_
    rw [List.eq_nil_iff_forall_not_mem]
    exact fun c hc => hg.not_unharmed rfl hc hu
  · intro hfull
    obtain rfl := hg.nil_of_full hfull
    exact h.unharmed hgeo hg.view_eq

/-- `CreateDirectory` without room does no harm exactly when no cluster is free. -/
theorem createDirectory_incomplete (name : List Byte) (h : WellFormed fs dev.store)
    (hgeo : Geometry fs)
    (hd : IsDirectory fs (fs.view dev.store) (fs.directoryOf parentCluster))
    (hroom : DiskFull (fs.view dev.store) ∨
      ¬FreeSlot fs (fs.view dev.store) (fs.directoryOf parentCluster)) :
    (Unharmed fs (fs.view dev.store)
        (fs.view (fs.createDirectory dev name parentCluster).2.store) ∧
      (fs.createDirectory dev name parentCluster).1 = 0) ↔ DiskFull (fs.view dev.store) := by
  rcases @createDirectory_cases fs dev name parentCluster hgeo with
    ⟨heq, hfull⟩ | ⟨c, dev₁, hg, -, -, heq⟩
  · rw [heq]
    exact iff_of_true ⟨h.unharmed hgeo rfl, rfl⟩ hfull
  · have hsome : ¬DiskFull (fs.view dev.store) := fun hfull => by cases hg.nil_of_full hfull
    rw [heq]
    dsimp only
    rw [addEntry_full h.sound hg hd (hroom.resolve_left hsome)]
    exact iff_of_false (fun hu => hg.not_unharmed rfl (List.mem_singleton_self c) hu.1) hsome

/-- Where nothing is free, `AppendFile` takes no cluster but records the new size. -/
private theorem appended_full (h : WellFormed fs dev.store) (hgeo : Geometry fs) {d : Nat}
    {ds : List Nat} {pre post : List Slot} (happ : Appended fs dev dev₁ s cs [] first)
    (hs : Listed fs (fs.view dev.store) s)
    (hfile : ((fs.view dev.store).entry s).isDirectory = false)
    (hchange : SlotUpdate fs (fs.view dev₁.store) ((fs.view dev₁.store).setSlot s
      (((fs.view dev.store).entry s).appended size first)) d ds pre s post) :
    Unharmed fs (fs.view dev.store) ((fs.view dev₁.store).setSlot s
        (((fs.view dev.store).entry s).appended size first)) ↔
      (((fs.view dev.store).entry s).fileSize + size) % 2 ^ 32 ≤ cs.length * fs.clusterBytes := by
  obtain ⟨hv₁, hsame, -⟩ := happ.frame h.sound hs hfile
  obtain ⟨hlen, -, -, hattr, hsize⟩ :=
    appended_keeps (length_entry (fs.view dev.store) s) size first
  have hset := (entry_setSlot (fs.view dev₁.store) s hlen).1
  have hfirst := happ.firstCluster h.sound hs hfile size
  have hfirst0 : first ≠ 0 := by
    have := (happ.grown.lt (List.mem_of_head? happ.head)).1
    omega
  have hchain := happ.grown.chain first happ.head
  rw [List.append_nil] at hchain
  have hown : ((fs.view dev.store).entry s).firstCluster ≠ 0 := by
    intro h0
    rcases happ.file with ⟨-, rfl⟩ | hc
    · cases hchain
    · exact absurd (h0 ▸ hc.valid_head.1) (by decide)
  have hcs := happ.file.resolve_left fun hz => hown hz.1
  constructor
  · rintro ⟨-, hsizes⟩
    have hle := hsizes s cs ((hchange.listed_iff hv₁).mpr (Or.inr ⟨rfl, ?_⟩)) ?_ (Or.inr ?_)
    · rwa [hset, hsize] at hle
    · rw [hset, appended_owner (length_entry _ s)]
      exact hs.owner
    · rw [hset, DirectoryEntry.isDirectory, hattr]
      exact hfile
    · rw [hset, hfirst]
      exact hchange.chain_iff.mpr hchain
  · intro hle
    refine ⟨fun x => ?_, fun t es ht htfile htc => ?_⟩
    · rw [hchange.fat]
      by_cases hx : x ∈ cs
      · exact iff_of_true (fat_ne_zero hchain hx) (fat_ne_zero hcs hx)
      · rw [happ.grown.fat x hx (by simp)]
    · by_cases hts : t = s
      · subst hts
        rw [hset, hsize]
        rw [FileChain, hset, hfirst] at htc
        rw [(htc.resolve_left fun hz => hfirst0 hz.1).unique (hchange.chain_iff.mpr hchain)]
        exact hle
      · obtain ⟨-, ht⟩ := ((hchange.listed_iff hv₁).mp ht).resolve_right fun hz => hts hz.1
        have ht₀ := (hsame.listed_iff h.sound).mp ht
        have he := (hchange.listed_entry ht hts).trans (hsame.listed_entry ht₀)
        rw [FileChain, he] at htc
        rw [he] at htfile ⊢
        refine h.size_le hgeo ht₀ htfile (htc.imp_right fun hc => ?_)
        have h0 : ((fs.view dev.store).entry t).firstCluster ≠ 0 := fun h0 =>
          absurd (h0 ▸ hc.valid_head.1) (by decide)
        have ho : Owns fs (fs.view dev.store) (.slot t) _ := ⟨ht₀, rfl, h0⟩
        have hne : Owner.slot t ≠ .slot s := fun heq => hts (Owner.slot.inj heq)
        exact (happ.grown.other_chain h.sound ho
          (fun es' hes' => happ.file.apart h.sound hs ho hne hes') (hchange.chain_iff.mp hc)).1

/-- `AppendFile` without room does no harm exactly when no cluster is free and the size it
records is not more than the clusters hold. -/
theorem appendFile_incomplete {name : CString} (h : WellFormed fs dev.store) (hgeo : Geometry fs)
    (hcall : (FatCall.appendFile name data size parentCluster).InVolume fs dev)
    (hinc : (FatCall.appendFile name data size parentCluster).Incomplete fs dev) :
    ∃ dev', fs.appendFile dev name data size parentCluster = some dev' ∧
      (Unharmed fs (fs.view dev.store) (fs.view dev'.store) ↔
        (FatCall.appendFile name data size parentCluster).Harmless fs dev) := by
  obtain ⟨hd, hfile⟩ := hcall
  have hd : IsDirectory fs (fs.view dev.store) (fs.directoryOf parentCluster) := hd
  obtain ⟨hsize, hroom⟩ := hinc
  obtain ⟨ds, hc⟩ := h.sound.directory_chain hd
  rw [FatCall.Harmless]
  cases hs : fs.findSlot dev name.chars parentCluster with
  | none =>
    rw [hs] at hroom
    refine ⟨_, appendFile_new hsize hs, ?_⟩
    rw [writeFile_incomplete _ _ h hgeo hd hsize hroom]
    simp
  | some s =>
    have hfile := hfile s hs
    rw [hs] at hroom
    dsimp only at hroom
    have hfind := hs
    rw [findSlot, findLoop_eq hc] at hfind
    obtain ⟨hlist, hlive⟩ := listed_of_find hd hc hfind
    obtain ⟨pre, post, hslots, hpre⟩ := split_of_mem_live hlive
    rcases @appendFile_cases fs dev data _ size parentCluster ds s name hgeo h.sound rfl hd hc hsize
      hfind hfile with ⟨heq, h0, hfull⟩ | ⟨cs, new, first, dev₁, happ, hcount, heq⟩
    · refine ⟨dev, heq, iff_of_true (h.unharmed hgeo rfl) ⟨hfull, fun t es ht hes => ?_⟩⟩
      rw [← Option.some.inj ht, h0] at hes
      exact absurd hes.valid_head.1 (by decide)
    · obtain ⟨hmem, hi⟩ := mem_slots.mp (live_subset _ _ s hlive)
      obtain ⟨h2, -, -, h32⟩ := ClusterChain.lt hc hmem
      have hchange := happ.change h.sound hlist hfile size hd hc hslots hpre
      obtain ⟨hview, -⟩ := @writeSlot_view fs (fun _ => True) _ hgeo dev₁ s h2 h32 hi _
        (appended_keeps (length_entry (fs.view dev.store) s) size first).1
        fun k hk => read_cluster dev₁ h2 h32 hk
      refine ⟨_, heq, ?_⟩
      rw [hview]
      by_cases hfull : DiskFull (fs.view dev.store)
      · obtain rfl := happ.grown.nil_of_full hfull
        rw [appended_full h hgeo happ hlist hfile hchange]
        have hne : cs ≠ [] := by
          rintro rfl
          cases happ.head
        have hcs := happ.file.resolve_left fun hz => hne hz.2
        constructor
        · refine fun hle => ⟨hfull, fun t es ht hes => ?_⟩
          obtain rfl := Option.some.inj ht
          rwa [hes.unique hcs]
        · exact fun hh => hh.2 s cs rfl hcs
      · refine iff_of_false (fun hu => ?_) fun hh => hfull hh.1
        have hnil : new = [] := by
          rw [List.eq_nil_iff_forall_not_mem]
          exact fun c hc => happ.grown.not_unharmed hchange.fat hc hu
        subst hnil
        have hne : cs ≠ [] := by
          rintro rfl
          cases happ.head
        have hcs := happ.file.resolve_left fun hz => hne hz.2
        have hown : ((fs.view dev.store).entry s).firstCluster ≠ 0 := fun h0 =>
          absurd (h0 ▸ hcs.valid_head.1) (by decide)
        rw [if_neg hown, Nat.zero_add] at hroom
        rcases hcount hne with hlen | ⟨-, hfull₁⟩
        · rw [← hlen] at hroom
          exact absurd hroom (Nat.not_lt_zero _)
        · have hle := happ.grown.freeClusters_le (fun x hx => fat_ne_zero hcs hx) hfull₁
          exact hfull (diskFull_iff.mpr (List.length_eq_zero_iff.mp (Nat.le_zero.mp hle)))

theorem undone_iff (call : FatCall) (h : WellFormed fs dev.store) (hgeo : Geometry fs)
    (hcall : call.InVolume fs dev) (hinc : call.Incomplete fs dev) :
    call.Undone fs dev ↔ call.Harmless fs dev := by
  cases call with
  | writeFile name data size p =>
    have hiff := writeFile_incomplete name data h hgeo
      (show IsDirectory fs (fs.view dev.store) (fs.directoryOf p) from hcall.1) hinc.1 hinc.2
    simp [FatCall.Undone, FatCall.run, FatCall.Harmless, hiff]
  | createDirectory name p =>
    have hiff := createDirectory_incomplete name h hgeo
      (show IsDirectory fs (fs.view dev.store) (fs.directoryOf p) from hcall.1) hinc
    simp [FatCall.Undone, FatCall.run, FatCall.Harmless, ← hiff]
  | appendFile name data size p =>
    obtain ⟨dev', heq, hiff⟩ := appendFile_incomplete h hgeo hcall hinc
    simp [FatCall.Undone, FatCall.run, heq, hiff]
  | deleteFile name p => exact absurd hinc id

/-- A call that cannot complete leaves the clusters in use, the sizes of the files and the value
that `CreateDirectory` returns as they should be when it has nothing to take, and among the calls in
a directory of the volume, for no directory, only then. -/
theorem incomplete_call_when (call : FatCall) (h : WellFormed fs dev.store) (hgeo : Geometry fs)
    (hinc : call.Incomplete fs dev) :
    (call.TakesNothing fs dev → call.Undone fs dev) ∧
      (call.InVolume fs dev → call.Undone fs dev → call.TakesNothing fs dev) := by
  constructor
  · intro ht
    exact (undone_iff call h hgeo ht.inVolume hinc).mpr ht.harmless
  · intro hcall hu
    exact ⟨hcall, (undone_iff call h hgeo hcall hinc).mp hu⟩

end Cases

/-- No slot of the root directory is free. -/
private theorem fullDisk_incomplete :
    (FatCall.writeFile (oneLetter 0x5A#8) (fun _ => 0x2A#8) 3 0).Incomplete smallVolume
      ⟨fullDisk, []⟩ := by
  refine ⟨by decide, Or.inr ?_⟩
  rintro ⟨j, hj, hfree⟩
  have hused : (List.range smallVolume.slotsPerCluster).all fun j =>
      !((smallVolume.view fullDisk).entry ⟨smallVolume.directoryOf 0, j⟩).isFree := by
    decide +kernel
  have := List.all_eq_true.mp hused j (List.mem_range.mpr hj)
  rw [hfree] at this
  cases this

theorem incomplete_call_when_small :
    ¬(FatCall.writeFile (oneLetter 0x5A#8) (fun _ => 0x2A#8) 3 0).Undone smallVolume
      ⟨fullDisk, []⟩ := by
  intro hu
  have hfree : (smallVolume.view fullDisk).fat 3 = 0 := by
    decide +kernel
  obtain ⟨hfull, -⟩ := ((incomplete_call_when _ fullDisk_wellFormed smallVolume_geometry
    fullDisk_incomplete).2 ⟨.root, rfl⟩ hu).harmless
  exact hfull 3 (by decide) (by decide) hfree

/-- `WriteFile` for a full directory leaves another cluster in use. -/
theorem incomplete_write_harms : Geometry smallVolume ∧ WellFormed smallVolume fullDisk ∧
    (FatCall.writeFile (oneLetter 0x5A#8) (fun _ => 0x2A#8) 3 0).InVolume smallVolume
      ⟨fullDisk, []⟩ ∧
    (FatCall.writeFile (oneLetter 0x5A#8) (fun _ => 0x2A#8) 3 0).Incomplete smallVolume
      ⟨fullDisk, []⟩ ∧
    ∃ dev', (FatCall.writeFile (oneLetter 0x5A#8) (fun _ => 0x2A#8) 3 0).run smallVolume
        ⟨fullDisk, []⟩ = some dev' ∧
      ¬Unharmed smallVolume (smallVolume.view fullDisk) (smallVolume.view dev'.store) := by
  refine ⟨smallVolume_geometry, fullDisk_wellFormed, ⟨.root, rfl⟩, fullDisk_incomplete, _, rfl,
    fun hu => ?_⟩
  have heval : (smallVolume.view fullDisk).fat 3 = 0 ∧ (smallVolume.view (smallVolume.writeFile
      ⟨fullDisk, []⟩ (oneLetter 0x5A#8) (fun _ => 0x2A#8) 3 0).store).fat 3 ≠ 0 := by
    decide +kernel
  exact (hu.1 3).mp heval.2 heval.1

end Sylphia
