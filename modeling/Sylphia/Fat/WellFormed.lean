import Sylphia.Core.Run
import Sylphia.Fat.Calls

/-!
# Well-formed volumes

The invariant of the volume that the calls keep as long as there is room: both FATs start
alike, the chains stay in the part of the FAT that is searched, files have as many clusters
as they need, and no cluster is lost.
-/

namespace Sylphia

open Bytes WriteLog Chain FAT32Driver

/-- The volume is sound, its chains are in the first sector of the FAT, which the second
FAT repeats, files have the clusters for their size, and every cluster in use is on a
chain. -/
structure WellFormed (fs : FAT32Driver) (d : Disk) : Prop where
  mirrored : Mirrored fs d
  sound : SoundVolume fs (fs.view d)
  low : ∀ o c cs, Owns fs (fs.view d) o c → ClusterChain fs (fs.view d) c cs → ∀ x ∈ cs, x < 128
  exact : ∀ s cs, Listed fs (fs.view d) s → ((fs.view d).entry s).isDirectory = false →
    ((fs.view d).entry s).fileSize > 0 →
    ClusterChain fs (fs.view d) ((fs.view d).entry s).firstCluster cs →
    cs.length = fs.clustersFor ((fs.view d).entry s).fileSize
  covered : ∀ x, 2 ≤ x → x < 128 → (fs.view d).fat x ≠ 0 →
    ∃ o c cs, Owns fs (fs.view d) o c ∧ ClusterChain fs (fs.view d) c cs ∧ x ∈ cs

/-- The free clusters that `AllocateCluster` looks at. -/
def View.freeClusters (V : View) : List Nat := (List.range' 2 126).filter fun c => V.fat c == 0

section Free

variable {fs : FAT32Driver} {V₀ V : View} {c : Nat} {cs new : List Nat}

theorem mem_freeClusters : c ∈ V.freeClusters ↔ 2 ≤ c ∧ c < 128 ∧ V.fat c = 0 := by
  rw [View.freeClusters, List.mem_filter, List.mem_range'_1, beq_iff_eq]
  omega

theorem diskFull_iff : DiskFull V ↔ V.freeClusters = [] := by
  rw [List.eq_nil_iff_forall_not_mem]
  constructor
  · intro h c hc
    obtain ⟨h2, h128, h0⟩ := mem_freeClusters.mp hc
    exact h c h2 h128 h0
  · intro h c h2 h128 h0
    exact h c (mem_freeClusters.mpr ⟨h2, h128, h0⟩)

/-- `AllocateCluster` gives the first of them. -/
theorem allocateCluster_fst (hg : Geometry fs) (dev : BlockDevice) :
    (fs.allocateCluster dev).1 = (fs.view dev.store).freeClusters.headD 0 := by
  have hfind : ((List.range' 2 126).find? fun i =>
      fatEntry (BlockDevice.read dev fs.fatStartLba) i == 0) =
        (fs.view dev.store).freeClusters.head? := by
    rw [View.freeClusters, List.head?_filter]
    refine List.find?_congr fun c hc => ?_
    rw [List.mem_range'_1] at hc
    rw [fatEntry_read_first hg dev (by omega)]
  rw [allocateCluster, List.headD_eq_head?_getD, ← hfind]
  dsimp only
  cases (List.range' 2 126).find? fun i =>
    fatEntry (BlockDevice.read dev fs.fatStartLba) i == 0 with
  | none => rfl
  | some i => rfl

namespace Lengthens

variable (h : Lengthens fs V₀ V cs new)
include h

/-- Where nothing was free nothing is taken. -/
theorem nil_of_full (hfull : DiskFull V₀) : new = [] := by
  rw [List.eq_nil_iff_forall_not_mem]
  intro x hx
  obtain ⟨h2, h128, h0⟩ := h.free x hx
  exact hfull x h2 h128 h0

/-- When nothing is left everything that was free has been taken. -/
theorem mem_of_full (hcs : ∀ x ∈ cs, V₀.fat x ≠ 0) (hfull : DiskFull V)
    (hc : c ∈ V₀.freeClusters) : c ∈ new := by
  obtain ⟨h2, h128, h0⟩ := mem_freeClusters.mp hc
  by_contra hnew
  exact hfull c h2 h128 ((h.fat c (fun hc => hcs c hc h0) hnew).trans h0)

theorem freeClusters_le (hcs : ∀ x ∈ cs, V₀.fat x ≠ 0) (hfull : DiskFull V) :
    V₀.freeClusters.length ≤ new.length := by
  have hnd : V₀.freeClusters.Nodup := (List.nodup_range').filter _
  exact (List.subperm_of_subset hnd fun c hc => h.mem_of_full hcs hfull hc).length_le

/-- No more is taken than was free. -/
theorem length_le_freeClusters : new.length ≤ V₀.freeClusters.length := by
  refine (List.subperm_of_subset ?_ fun c hc => mem_freeClusters.mpr (h.free c hc)).length_le
  cases hnew : new with
  | nil => exact List.nodup_nil
  | cons c rest =>
    obtain ⟨b, hb⟩ := h.exists_chain (show c ∈ cs ++ new by rw [hnew]; simp)
    rw [← hnew]
    exact (List.nodup_append.mp hb.nodup).2.1

/-- A cluster in use was in use, or has been taken. -/
theorem used_or (hx : V.fat c ≠ 0) : V₀.fat c ≠ 0 ∨ c ∈ cs ∨ c ∈ new := by
  by_cases hcs : c ∈ cs
  · exact Or.inr (Or.inl hcs)
  · by_cases hnew : c ∈ new
    · exact Or.inr (Or.inr hnew)
    · exact Or.inl (h.fat c hcs hnew ▸ hx)

end Lengthens

end Free

section Change

variable {fs : FAT32Driver} {d d' : Disk} {s : Slot}

/-- A volume whose owners are as before, save for one. -/
theorem WellFormed.of_change (h : WellFormed fs d) (hm : Mirrored fs d')
    (hv : SoundVolume fs (fs.view d')) (s : Slot)
    (howns : ∀ o c, o ≠ .slot s → (Owns fs (fs.view d') o c ↔ Owns fs (fs.view d) o c))
    (hchain : ∀ o c cs, o ≠ .slot s → Owns fs (fs.view d) o c → ClusterChain fs (fs.view d) c cs →
      ClusterChain fs (fs.view d') c cs)
    (hlisted : ∀ t, t ≠ s → Listed fs (fs.view d') t →
      Listed fs (fs.view d) t ∧ (fs.view d').entry t = (fs.view d).entry t)
    (hlow : ∀ c cs, Owns fs (fs.view d') (.slot s) c → ClusterChain fs (fs.view d') c cs →
      ∀ x ∈ cs, x < 128)
    (hexact : ∀ cs, Listed fs (fs.view d') s → ((fs.view d').entry s).isDirectory = false →
      ((fs.view d').entry s).fileSize > 0 →
      ClusterChain fs (fs.view d') ((fs.view d').entry s).firstCluster cs →
      cs.length = fs.clustersFor ((fs.view d').entry s).fileSize)
    (hcovered : ∀ x, 2 ≤ x → x < 128 → (fs.view d').fat x ≠ 0 →
      (∃ o c cs, o ≠ .slot s ∧ Owns fs (fs.view d) o c ∧ ClusterChain fs (fs.view d) c cs ∧
        x ∈ cs) ∨
      ∃ c cs, Owns fs (fs.view d') (.slot s) c ∧ ClusterChain fs (fs.view d') c cs ∧ x ∈ cs) :
    WellFormed fs d' where
  mirrored := hm
  sound := hv
  low := fun o c cs ho hc => by
    by_cases hos : o = .slot s
    · subst hos
      exact hlow c cs ho hc
    · rw [howns o c hos] at ho
      obtain ⟨es, he⟩ := h.sound.chains o c ho
      rw [← (hchain o c es hos ho he).unique hc]
      exact h.low o c es ho he
  exact := fun t cs ht hfile hsize hc => by
    by_cases hts : t = s
    · subst hts
      exact hexact cs ht hfile hsize hc
    · obtain ⟨ht, he⟩ := hlisted t hts ht
      rw [he] at hfile hsize hc ⊢
      have h0 := h.sound.sized t ht hfile hsize
      obtain ⟨es, hes⟩ := h.sound.chains (.slot t) _ ⟨ht, rfl, h0⟩
      have hne : Owner.slot t ≠ .slot s := fun heq => hts (Owner.slot.inj heq)
      rw [← (hchain (.slot t) _ es hne ⟨ht, rfl, h0⟩ hes).unique hc]
      exact h.exact t es ht hfile hsize hes
  covered := fun x h2 h128 hx => by
    rcases hcovered x h2 h128 hx with ⟨o, c, cs, hos, ho, hc, hmem⟩ | ⟨c, cs, ho, hc, hmem⟩
    · exact ⟨o, c, cs, (howns o c hos).mpr ho, hchain o c cs hos ho hc, hmem⟩
    · exact ⟨.slot s, c, cs, ho, hc, hmem⟩

end Change

/-! ## The calls -/

section Calls

variable {fs : FAT32Driver} {dev dev₁ : BlockDevice} {name : List Byte} {data : Buffer} {s : Slot}
  {first size parentCluster : Nat} {attr : Byte} {cs new : List Nat}

/-- The names of the entries `.` and `..`. -/
def DotName (name : List Byte) : Prop :=
  name = 0x2E#8 :: List.replicate 10 0x20#8 ∨ name = 0x2E#8 :: 0x2E#8 :: List.replicate 9 0x20#8

instance (name : List Byte) : Decidable (DotName name) := inferInstanceAs (Decidable (_ ∨ _))

theorem owner_create (hname : name.length = 11)
    (hfirst : name.getD 0 0 ≠ 0 ∧ name.getD 0 0 ≠ 0xE5#8) (hdot : ¬DotName name)
    (hattr : attr ≠ 0x0F#8) : (DirectoryEntry.create name first size attr).owner = true := by
  rw [DirectoryEntry.owner, DirectoryEntry.isLive, DirectoryEntry.isDot,
    DirectoryEntry.first_create hname, DirectoryEntry.attr_create hname,
    DirectoryEntry.name_create hname]
  rw [DotName, not_or] at hdot
  rw [Bool.and_eq_true, Bool.not_eq_true', Bool.or_eq_false_iff, beq_eq_false_iff_ne,
    beq_eq_false_iff_ne, Bool.and_eq_true, Bool.and_eq_true, bne_iff_ne, bne_iff_ne, bne_iff_ne]
  exact ⟨⟨hfirst, hattr⟩, hdot⟩

/-- Nothing has been taken. -/
theorem WellFormed.of_nothing (h : WellFormed fs dev.store) (hm : Mirrored fs dev₁.store)
    (hg : Lengthens fs (fs.view dev.store) (fs.view dev₁.store) [] []) :
    WellFormed fs dev₁.store := by
  have hview : fs.view dev₁.store = fs.view dev.store :=
    View.ext (funext fun x => hg.fat x (by simp) (by simp))
      (funext fun x => hg.data x (by simp) (by simp))
  obtain ⟨-, hsound, hlow, hexact, hcovered⟩ := h
  rw [← hview] at hsound hlow hexact hcovered
  exact ⟨hm, hsound, hlow, hexact, hcovered⟩

/-- A new entry takes over the new clusters. -/
theorem WellFormed.addEntry (h : WellFormed fs dev.store) (hgeo : Geometry fs)
    (hg : Lengthens fs (fs.view dev.store) (fs.view dev₁.store) [] new)
    (hm : Mirrored fs dev₁.store)
    (hd : IsDirectory fs (fs.view dev.store) (fs.directoryOf parentCluster))
    (hname : FatCall.NewName fs (fs.view dev.store) (fs.directoryOf parentCluster) name)
    (hdot : ¬DotName name) (hattr : attr ≠ 0x0F#8) (hfirst : new.head? = some first)
    (hempty : attr &&& 0x10#8 ≠ 0 → (fs.view dev₁.store).Ended (fs.slots new) ∧
      ∀ t ∈ (fs.view dev₁.store).live (fs.slots new), ((fs.view dev₁.store).entry t).isDot = true)
    (hsize : attr &&& 0x10#8 = 0 → new.length = fs.clustersFor (size % 2 ^ 32))
    (hslot : ∃ j < fs.slotsPerCluster,
      ((fs.view dev.store).entry ⟨fs.directoryOf parentCluster, j⟩).isFree = true) :
    WellFormed fs (fs.addDirectoryEntry dev₁ name first size attr parentCluster).store := by
  obtain ⟨hv₁, hsame, -⟩ := hg.within.frame_none h.sound
  obtain ⟨ds, hc, ⟨-, hfull⟩ | ⟨i, buf, heq, hpub⟩⟩ :=
    addEntry_cases hgeo h.sound hg hd hname hfirst hempty size
  · obtain ⟨j, hj, hfree⟩ := hslot
    rw [hfull j hj] at hfree
    cases hfree
  · obtain ⟨pre, post, hchange⟩ := hpub.change
    obtain ⟨hset, -⟩ := entry_setSlot (fs.view dev₁.store) ⟨fs.directoryOf parentCluster, i⟩
      hpub.length
    rw [← hpub.view] at hset
    have howner := @owner_create name first size attr hname.length hname.first hdot hattr
    have hlt := hg.lt (List.mem_of_head? hfirst)
    have hfirst' : (DirectoryEntry.create name first size attr).firstCluster = first :=
      DirectoryEntry.firstCluster_create hname.length hlt.2.2.2
    have hnew := hchange.chain_iff.mpr (hg.chain first hfirst)
    have hfree : ((fs.view dev.store).entry ⟨fs.directoryOf parentCluster, i⟩).isLive = false := by
      rw [← hsame.entry hd hc hchange.mem]
      exact isLive_of_isFree hpub.free
    have hnot {o : Owner} {c : Nat} (ho : Owns fs (fs.view dev.store) o c) :
        o ≠ .slot ⟨fs.directoryOf parentCluster, i⟩ := by
      rintro rfl
      obtain ⟨⟨_, _, -, -, hlive, -⟩, -⟩ := ho
      rw [isLive_of_mem_live hlive] at hfree
      cases hfree
    refine h.of_change ?_ (hchange.sound hv₁) ⟨fs.directoryOf parentCluster, i⟩ ?_ ?_ ?_ ?_ ?_ ?_
    · rw [heq]
      exact mirrored_writeSlot hgeo hm _ _
    · intro o c hos
      rw [hchange.owns_iff hv₁, hsame.owns_iff h.sound]
      simp [hos]
    · intro o c cs _ _ hc
      exact hchange.chain_iff.mpr (hg.keeps_chain hc fun _ _ hx => by cases hx).1
    · intro t hts ht
      rcases (hchange.listed_iff hv₁).mp ht with ⟨-, ht⟩ | ⟨hts', -⟩
      · have ht₀ := (hsame.listed_iff h.sound).mp ht
        exact ⟨ht₀, (hchange.listed_entry ht hts).trans (hsame.listed_entry ht₀)⟩
      · exact absurd hts' hts
    · intro c cs ho hcs x hx
      rcases (hchange.owns_iff hv₁).mp ho with ⟨hne, -⟩ | ⟨-, -, hc', -⟩
      · exact absurd rfl hne
      · rw [hset, hfirst'] at hc'
        rw [← hc'] at hcs
        rw [hcs.unique hnew] at hx
        exact (hg.free x hx).2.1
    · intro cs _ hfile _ hcs
      rw [hset] at hfile hcs ⊢
      rw [hfirst'] at hcs
      rw [hcs.unique hnew, DirectoryEntry.fileSize_create hname.length]
      refine hsize ?_
      rw [DirectoryEntry.isDirectory, DirectoryEntry.attr_create hname.length] at hfile
      simpa using hfile
    · intro x h2 h128 hx
      rw [hchange.fat] at hx
      rcases hg.used_or hx with hx | hx | hx
      · obtain ⟨o, c, cs, ho, hc, hmem⟩ := h.covered x h2 h128 hx
        exact Or.inl ⟨o, c, cs, hnot ho, ho, hc, hmem⟩
      · cases hx
      · refine Or.inr ⟨first, new, (hchange.owns_iff hv₁).mpr (Or.inr ⟨rfl, ?_, ?_, ?_⟩), hnew, hx⟩
        · rw [hset]
          exact howner
        · rw [hset]
          exact hfirst'
        · omega

/-- There is a free slot in the first cluster of the directory. -/
def FreeSlot (fs : FAT32Driver) (V : View) (d : Nat) : Prop :=
  ∃ j < fs.slotsPerCluster, (V.entry ⟨d, j⟩).isFree = true

theorem WellFormed.writeFile (h : WellFormed fs dev.store) (hgeo : Geometry fs)
    (hd : IsDirectory fs (fs.view dev.store) (fs.directoryOf parentCluster))
    (hname : FatCall.NewName fs (fs.view dev.store) (fs.directoryOf parentCluster) name)
    (hdot : ¬DotName name) (hsize : size ≠ 0) (h32 : size < 2 ^ 32)
    (hroom : DiskFull (fs.view dev.store) ∨
      fs.clustersFor size ≤ (fs.view dev.store).freeClusters.length ∧
        FreeSlot fs (fs.view dev.store) (fs.directoryOf parentCluster)) :
    WellFormed fs (fs.writeFile dev name data size parentCluster).store := by
  obtain ⟨new, dev₁, hg, hadv, ⟨heq, hlen, hfull⟩ | ⟨first, hfirst, hlen, -, heq⟩⟩ :=
    @writeFile_cases fs dev name data size parentCluster hgeo hsize
  · rw [heq]
    rcases hroom with hnone | ⟨henough, -⟩
    · obtain rfl := hg.nil_of_full hnone
      exact h.of_nothing (hadv.mirrored h.mirrored) hg
    · have hle := hg.freeClusters_le (fun x hx => by cases hx) hfull
      omega
  · rw [heq]
    have hsome : ¬DiskFull (fs.view dev.store) := by
      intro hnone
      rw [hg.nil_of_full hnone] at hfirst
      cases hfirst
    refine h.addEntry hgeo hg (hadv.mirrored h.mirrored) hd hname hdot (by decide) hfirst
      (fun h0 => absurd rfl h0) (fun _ => ?_) (hroom.resolve_left hsome).2
    rw [Nat.mod_eq_of_lt h32]
    exact hlen

theorem WellFormed.createDirectory (h : WellFormed fs dev.store) (hgeo : Geometry fs)
    (hd : IsDirectory fs (fs.view dev.store) (fs.directoryOf parentCluster))
    (hname : FatCall.NewName fs (fs.view dev.store) (fs.directoryOf parentCluster) name)
    (hdot : ¬DotName name)
    (hroom : DiskFull (fs.view dev.store) ∨
      FreeSlot fs (fs.view dev.store) (fs.directoryOf parentCluster)) :
    WellFormed fs (fs.createDirectory dev name parentCluster).2.store := by
  rcases @createDirectory_cases fs dev name parentCluster hgeo with
    ⟨heq, -⟩ | ⟨c, dev₁, hg, hadv, hdata, heq⟩
  · rw [heq]
    exact h
  · rw [heq]
    have hsome : ¬DiskFull (fs.view dev.store) := fun hnone => by
      cases hg.nil_of_full hnone
    exact h.addEntry hgeo hg (hadv.mirrored h.mirrored) hd hname hdot (by decide) rfl
      (fun _ => dotEntries_empty hdata) (fun h0 => absurd h0 (by decide)) (hroom.resolve_left hsome)

/-- A file is lengthened by as many clusters as it needs. -/
theorem WellFormed.appendFile {name : CString} (data : Buffer) (h : WellFormed fs dev.store)
    (hgeo : Geometry fs)
    (hd : IsDirectory fs (fs.view dev.store) (fs.directoryOf parentCluster))
    (hs : fs.findSlot dev name.chars parentCluster = some s)
    (hfile : ((fs.view dev.store).entry s).isDirectory = false)
    (hold : 0 < ((fs.view dev.store).entry s).fileSize)
    (h32 : ((fs.view dev.store).entry s).fileSize + size < 2 ^ 32)
    (hroom : fs.clustersFor (size - fs.roomInLast ((fs.view dev.store).entry s).fileSize) ≤
      (fs.view dev.store).freeClusters.length) :
    ∃ dev', fs.appendFile dev name data size parentCluster = some dev' ∧
      WellFormed fs dev'.store := by
  by_cases hsize : size = 0
  · exact ⟨dev, if_pos hsize, h⟩
  obtain ⟨ds, hc⟩ := h.sound.directory_chain hd
  rw [findSlot, findLoop_eq hc] at hs
  obtain ⟨hlist, hlive⟩ := listed_of_find hd hc hs
  obtain ⟨pre, post, hslots, hpre⟩ := split_of_mem_live hlive
  have hfirst0 := h.sound.sized s hlist hfile hold
  rcases @appendFile_cases fs dev data _ size parentCluster ds s name hgeo h.sound rfl hd hc
    hsize hs
    hfile with ⟨-, h0, -⟩ | ⟨cs, new, first, dev₁, happ, hcount, heq⟩
  · exact absurd h0 hfirst0
  · obtain ⟨hv₁, hsame, -⟩ := happ.frame h.sound hlist hfile
    have hchange := happ.change h.sound hlist hfile size hd hc hslots hpre
    obtain ⟨hmem, hi⟩ := mem_slots.mp (live_subset _ _ s hlive)
    obtain ⟨h2, -, -, hlt⟩ := ClusterChain.lt hc hmem
    obtain ⟨hlen, -, -, hattr, hnewsize⟩ :=
      appended_keeps (length_entry (fs.view dev.store) s) size first
    obtain ⟨hview, -⟩ := @writeSlot_view fs (fun _ => True) _ hgeo dev₁ s h2 hlt hi _ hlen
      fun k hk => read_cluster dev₁ h2 hlt hk
    have hcs := happ.file.resolve_left fun hz => hfirst0 hz.1
    have hused : ∀ x ∈ cs, (fs.view dev.store).fat x ≠ 0 := fun x hx => fat_ne_zero hcs hx
    have hlength : new.length =
        fs.clustersFor (size - fs.roomInLast ((fs.view dev.store).entry s).fileSize) := by
      rcases hcount (List.ne_nil_of_mem hcs.head_mem) with hlen | ⟨hlen, hfull⟩
      · exact hlen
      · have hle := happ.grown.freeClusters_le hused hfull
        omega
    have hset := (entry_setSlot (fs.view dev₁.store) s hlen).1
    have hfirst := happ.firstCluster h.sound hlist hfile size
    have hall := hchange.chain_iff.mpr (happ.grown.chain first happ.head)
    have howns : Owns fs ((fs.view dev₁.store).setSlot s
        (((fs.view dev.store).entry s).appended size first)) (.slot s) first := by
      have h1 := (happ.grown.lt (List.mem_of_head? happ.head)).1
      refine (hchange.owns_iff hv₁).mpr (Or.inr ⟨rfl, ?_, by rw [hset, hfirst], by omega⟩)
      rw [hset, appended_owner (length_entry _ s)]
      exact hlist.owner
    refine ⟨_, heq, h.of_change ?_ (hview ▸ hchange.sound hv₁) s ?_ ?_ ?_ ?_ ?_ ?_⟩
    · exact mirrored_writeSlot hgeo (happ.advance.mirrored h.mirrored) _ _
    all_goals rw [hview]
    · intro o c hos
      rw [hchange.owns_iff hv₁, hsame.owns_iff h.sound]
      simp [hos]
    · intro o c es hos ho hes
      exact hchange.chain_iff.mpr
        (happ.grown.keeps_chain hes (happ.file.apart h.sound hlist ho hos hes)).1
    · intro t hts ht
      rcases (hchange.listed_iff hv₁).mp ht with ⟨-, ht⟩ | ⟨hts', -⟩
      · have ht₀ := (hsame.listed_iff h.sound).mp ht
        exact ⟨ht₀, (hchange.listed_entry ht hts).trans (hsame.listed_entry ht₀)⟩
      · exact absurd hts' hts
    · intro c es ho hes x hx
      obtain rfl := ho.unique howns
      rw [hes.unique hall] at hx
      rcases List.mem_append.mp hx with hx | hx
      · exact h.low (.slot s) _ cs ⟨hlist, rfl, hfirst0⟩ hcs x hx
      · exact (happ.grown.free x hx).2.1
    · intro es _ _ _ hes
      rw [hset] at hes ⊢
      rw [hfirst] at hes
      rw [hes.unique hall, hnewsize, Nat.mod_eq_of_lt h32, clustersFor_add hgeo hold,
        List.length_append, hlength, h.exact s cs hlist hfile hold hcs]
    · intro x hx2 hx128 hx
      rw [hchange.fat] at hx
      by_cases hxs : x ∈ cs ++ new
      · exact Or.inr ⟨first, cs ++ new, howns, hall, hxs⟩
      · rw [List.mem_append, not_or] at hxs
        rw [happ.grown.fat x hxs.1 hxs.2] at hx
        obtain ⟨o, c, es, ho, hes, hmem⟩ := h.covered x hx2 hx128 hx
        refine Or.inl ⟨o, c, es, ?_, ho, hes, hmem⟩
        rintro rfl
        obtain ⟨-, rfl, -⟩ := ho
        exact hxs.1 (hes.unique hcs ▸ hmem)

/-- A file goes, and its clusters are free. -/
theorem WellFormed.deleteFile (h : WellFormed fs dev.store) (hgeo : Geometry fs)
    (hd : IsDirectory fs (fs.view dev.store) (fs.directoryOf parentCluster))
    (hs : (fs.searchLoop dev name loopBound (fs.directoryOf parentCluster)).join = some s)
    (hfile : ((fs.view dev.store).entry s).isDirectory = false) :
    ∃ dev', fs.deleteFile dev name parentCluster = some (true, dev') ∧
      WellFormed fs dev'.store := by
  obtain ⟨ds, cs, dev', heq, hmirror, hdel⟩ := deleteFile_deleted hgeo h.sound hd hs hfile
  obtain ⟨hv', hsame, -⟩ := hdel.frame h.sound
  obtain ⟨pre, post, hchange⟩ := hdel.change
  have hv₁ := hchange.sound h.sound
  have hdead : ¬Listed fs (fs.view dev'.store) s := by
    rw [hsame.listed_iff hv₁, hchange.listed_iff h.sound]
    rintro (⟨hne, -⟩ | ⟨-, howner⟩)
    · exact hne rfl
    · rw [(entry_setSlot _ s (DirectoryEntry.length_delete (length_entry _ s))).1] at howner
      cases howner
  refine ⟨dev', heq, h.of_change (hmirror h.mirrored) hv' s ?_ ?_ ?_ ?_ ?_ ?_⟩
  · intro o c hos
    rw [hsame.owns_iff hv₁, hchange.owns_iff h.sound]
    simp [hos]
  · intro o c es hos ho hes
    have hapart := hdel.file.apart h.sound hdel.listed ho hos hes
    refine (hchange.chain_iff.mpr hes).congr fun x hx => ?_
    rw [hdel.view, View.next, View.next, View.clear]
    dsimp only
    rw [if_neg (hapart x hx)]
  · intro t hts ht
    rw [hsame.listed_iff hv₁] at ht
    rcases (hchange.listed_iff h.sound).mp ht with ⟨-, ht₀⟩ | ⟨hts', -⟩
    · exact ⟨ht₀, (hsame.listed_entry ht).trans (hchange.listed_entry ht₀ hts)⟩
    · exact absurd hts' hts
  · exact fun c es ho => absurd ho.1 hdead
  · exact fun es ht => absurd ht hdead
  · intro x h2 h128 hx
    rw [hdel.view, View.clear] at hx
    dsimp only at hx
    split at hx
    · exact absurd rfl hx
    · next hcs =>
      obtain ⟨o, c, es, ho, hes, hmem⟩ := h.covered x h2 h128 hx
      refine Or.inl ⟨o, c, es, ?_, ho, hes, hmem⟩
      rintro rfl
      obtain ⟨-, rfl, h0⟩ := ho
      rcases hdel.file with ⟨hz, -⟩ | hc
      · exact h0 hz
      · exact hcs (hes.unique hc ▸ hmem)

end Calls

section Searches

variable {fs : FAT32Driver} {dev : BlockDevice} {name : List Byte} {d : Nat} {ds : List Nat}

/-- A directory has fewer clusters than a search goes through. -/
theorem WellFormed.take_chain {disk : Disk} (h : WellFormed fs disk)
    (hd : IsDirectory fs (fs.view disk) d) (hc : ClusterChain fs (fs.view disk) d ds) :
    ds.take 10001 = ds := by
  obtain ⟨o, ho, -⟩ := hd.owner
  have hsub : ds ⊆ List.range 128 := fun y hy => List.mem_range.mpr (h.low o d ds ho hc y hy)
  have hlen := (List.subperm_of_subset hc.nodup hsub).length_le
  rw [List.length_range] at hlen
  exact List.take_of_length_le (by omega)

/-- `FindDirectoryEntry` goes through the whole directory. -/
theorem WellFormed.findSlot_eq (h : WellFormed fs dev.store)
    (hd : IsDirectory fs (fs.view dev.store) (fs.directoryOf d))
    (hc : ClusterChain fs (fs.view dev.store) (fs.directoryOf d) ds) :
    fs.findSlot dev name d = (fs.view dev.store).find name (fs.slots ds) := by
  rw [← findSlot_directoryOf, Sylphia.findSlot_eq hc, h.take_chain hd hc]

/-- No entry of a directory has a name that is not found there. -/
theorem WellFormed.absent (h : WellFormed fs dev.store)
    (hd : IsDirectory fs (fs.view dev.store) (fs.directoryOf d))
    (hc : ClusterChain fs (fs.view dev.store) (fs.directoryOf d) ds)
    (hnone : fs.findDirectoryEntry dev name d = none) :
    ∀ t ∈ (fs.view dev.store).live (fs.slots ds),
      isNameEqual ((fs.view dev.store).entry t).name name = false := by
  intro t ht
  rw [findDirectoryEntry, Option.map_eq_none_iff, h.findSlot_eq hd hc, View.find,
    List.find?_eq_none] at hnone
  simpa using hnone t ht

end Searches

namespace FatCall

/-- The calls that may be made: in a directory, with a new name and with data for a new
entry, for a file that is not empty and does not get too long, and for a file that is to
go. -/
def Valid (fs : FAT32Driver) (dev : BlockDevice) (call : FatCall) : Prop :=
  call.Proper fs dev ∧
    match call with
    | .writeFile _ _ size _ => size ≠ 0 ∧ size < 2 ^ 32
    | .appendFile _ _ size _ => ∀ s, call.target fs dev = some s →
        0 < ((fs.view dev.store).entry s).fileSize ∧
          ((fs.view dev.store).entry s).fileSize + size < 2 ^ 32
    | _ => True

/-- There are enough free clusters and there is a free slot, unless a call that makes an
entry finds no free cluster at all; a new entry is not named `.` or `..`. -/
def Room (fs : FAT32Driver) (dev : BlockDevice) (call : FatCall) : Prop :=
  match call with
  | .writeFile name _ size p => ¬DotName name ∧ (DiskFull (fs.view dev.store) ∨
      fs.clustersFor size ≤ (fs.view dev.store).freeClusters.length ∧
        FreeSlot fs (fs.view dev.store) (fs.directoryOf p))
  | .createDirectory name p => ¬DotName name ∧ (DiskFull (fs.view dev.store) ∨
      FreeSlot fs (fs.view dev.store) (fs.directoryOf p))
  | .appendFile _ _ size _ => ∀ s, call.target fs dev = some s →
      fs.clustersFor (size - fs.roomInLast ((fs.view dev.store).entry s).fileSize) ≤
        (fs.view dev.store).freeClusters.length
  | .deleteFile _ _ => True

/-- The disk after a call; `none` once a call has not ended. -/
def step (fs : FAT32Driver) (s : Option Disk) (call : FatCall) : Option Disk :=
  s.bind fun d => (call.run fs ⟨d, []⟩).map Logged.store

/-- A call may be made on this disk. -/
def Allowed (fs : FAT32Driver) (s : Option Disk) (call : FatCall) : Prop :=
  ∃ d, s = some d ∧ call.Valid fs ⟨d, []⟩

/-- A call finds room on this disk. -/
def Fits (fs : FAT32Driver) (s : Option Disk) (call : FatCall) : Prop :=
  ∀ d, s = some d → call.Room fs ⟨d, []⟩

end FatCall

/-- One call keeps the volume well formed. -/
theorem WellFormed.step {fs : FAT32Driver} {d : Disk} {call : FatCall} (h : WellFormed fs d)
    (hgeo : Geometry fs) (hcall : call.Valid fs ⟨d, []⟩) (hroom : call.Room fs ⟨d, []⟩) :
    ∃ d', call.step fs (some d) = some d' ∧ WellFormed fs d' := by
  obtain ⟨⟨hd, hproper⟩, hvalid⟩ := hcall
  cases call with
  | writeFile name data size p =>
    exact ⟨_, rfl, WellFormed.writeFile h hgeo hd hproper hroom.1 hvalid.1 hvalid.2
      hroom.2⟩
  | createDirectory name p =>
    exact ⟨_, rfl, WellFormed.createDirectory h hgeo hd hproper hroom.1 hroom.2⟩
  | appendFile name data size p =>
    obtain ⟨s, hs, hfile⟩ := hproper
    obtain ⟨hold, h32⟩ := hvalid s hs
    obtain ⟨dev', heq, h'⟩ := WellFormed.appendFile data h hgeo hd hs hfile hold h32
      (hroom s hs)
    exact ⟨dev'.store, congrArg (Option.map Logged.store) heq, h'⟩
  | deleteFile name p =>
    obtain ⟨s, hs, hfile⟩ := hproper
    obtain ⟨dev', heq, h'⟩ := WellFormed.deleteFile h hgeo hd hs hfile
    exact ⟨dev'.store,
      congrArg (fun r => (Option.map Prod.snd r).map Logged.store) heq, h'⟩

/-- A volume stays well formed through every run of calls that find room. -/
theorem well_formed_run {fs : FAT32Driver} {run : List (Option Disk × FatCall)} {s : Option Disk}
    (hgeo : Geometry fs)
    (hrun : Transition.Run (FatCall.step fs) (FatCall.Allowed fs)
      (fun s => ∃ d, s = some d ∧ WellFormed fs d) run s)
    (hroom : Transition.Throughout (fun _ x => FatCall.Fits fs x.1 x.2) run) :
    ∃ d, s = some d ∧ WellFormed fs d := by
  have hinv := hrun.throughout (I := fun _ s => ∃ d, s = some d ∧ WellFormed fs d)
    (P := fun _ _ => True) (fun _ h => h) (fun _ s call hs hok hfits => ?_) hroom
  · exact hinv.2
  · obtain ⟨d, rfl, hd⟩ := hs
    obtain ⟨d₀, hd₀, hvalid⟩ := hok
    obtain rfl := Option.some.inj hd₀
    exact ⟨trivial, hd.step hgeo hvalid (hfits d rfl)⟩

/-! ## Runs of a small volume -/

/-- The root directory has sixteen empty files, and there is no slot left. -/
def fullDisk : Disk := fun lba k =>
  if lba < 2 then blankDisk lba k
  else if lba = 2 then
    if k % 32 = 0 then BitVec.ofNat 8 (0x41 + k / 32) else if k % 32 < 12 then 0x20#8 else 0
  else 0

theorem flat_small {V : View} (hroot : endOfChain ≤ V.fat 2 % 2 ^ 28)
    (hused : (smallVolume.slots [2]).all fun s => (V.entry s).first != 0)
    (hempty : (smallVolume.slots [2]).all fun s =>
      (V.entry s).firstCluster == 0 && (V.entry s).fileSize == 0) :
    Flat smallVolume V [2] := by
  refine ⟨root_chain hroot, ?_, fun s hs => ?_⟩
  · refine List.Pairwise.imp_of_mem (fun hs _ _ h0 => ?_)
      (List.pairwise_of_forall fun _ _ => trivial)
    have := List.all_eq_true.mp hused _ hs
    rw [bne_iff_ne] at this
    exact absurd h0 this
  · have := List.all_eq_true.mp hempty s (live_subset V _ s hs)
    simpa using this

theorem wellFormed_small {d : Disk}
    (hmirror : (List.range 512).all fun k => d 1 k == d 0 k)
    (hflat : Flat smallVolume (smallVolume.view d) [2])
    (hfree : (List.range' 2 126).all fun x => (smallVolume.view d).fat x == 0 || x == 2) :
    WellFormed smallVolume d := by
  refine ⟨fun k hk => ?_, hflat.sound, fun o c cs ho hc => ?_, fun s cs hs _ hsize => ?_,
    fun x h2 h128 hx => ?_⟩
  · have hsame := List.all_eq_true.mp hmirror k (List.mem_range.mpr hk)
    rw [beq_iff_eq] at hsame
    exact hsame
  · rw [(hflat.owner ho).2] at hc
    rw [hc.unique hflat.chain]
    decide
  · rw [(hflat.listed hs).2] at hsize
    exact absurd hsize (Nat.lt_irrefl 0)
  · have hx2 := List.all_eq_true.mp hfree x (by rw [List.mem_range'_1]; omega)
    rw [Bool.or_eq_true, beq_iff_eq, beq_iff_eq] at hx2
    exact ⟨.root, 2, [2], rfl, hflat.chain, by rw [hx2.resolve_left hx]; simp⟩

theorem blankDisk_wellFormed : WellFormed smallVolume blankDisk := by
  have heval : endOfChain ≤ (smallVolume.view blankDisk).fat 2 % 2 ^ 28 ∧
      ((smallVolume.slots [2]).all fun s => ((smallVolume.view blankDisk).entry s).first == 0) ∧
      ((List.range 512).all fun k => blankDisk 1 k == blankDisk 0 k) ∧
      (List.range' 2 126).all fun x => (smallVolume.view blankDisk).fat x == 0 || x == 2 := by
    decide +kernel
  obtain ⟨hroot, hzero, hmirror, hfree⟩ := heval
  refine wellFormed_small hmirror (flat_of_zero (root_chain hroot) fun s hs => ?_) hfree
  simpa using List.all_eq_true.mp hzero s hs

/-- The file `A` is written. -/
def smallWrite : FatCall := .writeFile (oneLetter 0x41#8) (fun _ => 0x2A#8) 3 0

/-- 600 bytes are appended to the file. -/
def smallAppend : FatCall := .appendFile ⟨[0x61#8], []⟩ (fun k => BitVec.ofNat 8 k) 600 0

/-- The directory `D` is made. -/
def smallMake : FatCall := .createDirectory (oneLetter 0x44#8) 0

/-- The disk with the file and the bytes behind it. -/
def grownDisk : Disk := (smallAppend.step smallVolume (some oneFileDisk.store)).getD blankDisk

theorem smallAppend_step :
    smallAppend.step smallVolume (some oneFileDisk.store) = some grownDisk := by
  have hsome : (smallAppend.step smallVolume (some oneFileDisk.store)).isSome := by decide +kernel
  obtain ⟨d, hd⟩ := Option.isSome_iff_exists.mp hsome
  rw [grownDisk, hd]
  rfl

/-- A volume that was just formatted is well formed when a file was written and grew and a directory
was made. -/
theorem well_formed_run_small : ∃ d,
    smallMake.step smallVolume (smallAppend.step smallVolume
      (smallWrite.step smallVolume (some blankDisk))) = some d ∧ WellFormed smallVolume d := by
  have hblank : endOfChain ≤ (smallVolume.view blankDisk).fat 2 % 2 ^ 28 ∧
      (((smallVolume.view blankDisk).live (smallVolume.slots [2])).all fun t =>
        ((smallVolume.view blankDisk).entry t).name != oneLetter 0x41#8) ∧
      smallVolume.clustersFor 3 ≤ (smallVolume.view blankDisk).freeClusters.length ∧
      0 < smallVolume.slotsPerCluster ∧
      ((smallVolume.view blankDisk).entry ⟨smallVolume.directoryOf 0, 0⟩).isFree = true := by
    decide +kernel
  have hfile : smallVolume.findSlot ⟨oneFileDisk.store, []⟩ [0x61#8] 0 = some ⟨2, 0⟩ ∧
      ((smallVolume.view oneFileDisk.store).entry ⟨2, 0⟩).isDirectory = false ∧
      ((smallVolume.view oneFileDisk.store).entry ⟨2, 0⟩).fileSize = 3 ∧
      smallVolume.clustersFor (600 - smallVolume.roomInLast 3) ≤
        (smallVolume.view oneFileDisk.store).freeClusters.length := by
    decide +kernel
  have hgrown : endOfChain ≤ (smallVolume.view grownDisk).fat 2 % 2 ^ 28 ∧
      (((smallVolume.view grownDisk).live (smallVolume.slots [2])).all fun t =>
        ((smallVolume.view grownDisk).entry t).name != oneLetter 0x44#8) ∧
      ((smallVolume.view grownDisk).entry ⟨smallVolume.directoryOf 0, 1⟩).isFree = true := by
    decide +kernel
  have hwrite : Transition.Run (FatCall.step smallVolume) (FatCall.Allowed smallVolume)
      (fun s => ∃ d, s = some d ∧ WellFormed smallVolume d) [(some blankDisk, smallWrite)]
      (some oneFileDisk.store) :=
    .step _ (.start ⟨blankDisk, rfl, blankDisk_wellFormed⟩) ⟨blankDisk, rfl,
      ⟨.root, newName_small hblank.1 (by decide) hblank.2.1⟩, by decide, by decide⟩
  have hrun := (hwrite.step smallAppend ⟨oneFileDisk.store, rfl,
    ⟨.root, ⟨2, 0⟩, hfile.1, hfile.2.1⟩, fun s hs => by
      cases hfile.1.symm.trans hs
      rw [hfile.2.2.1]
      decide⟩).step smallMake ⟨grownDisk, smallAppend_step,
    ⟨.root, newName_small hgrown.1 (by decide) hgrown.2.1⟩, trivial⟩
  refine well_formed_run smallVolume_geometry hrun ⟨fun d hd => ?_, fun d hd => ?_, fun d hd => ?_,
    trivial⟩
  · cases smallAppend_step.symm.trans hd
    exact ⟨by decide, Or.inr ⟨1, by decide, hgrown.2.2⟩⟩
  · obtain rfl : oneFileDisk.store = d := Option.some.inj hd
    intro s hs
    cases hfile.1.symm.trans hs
    rw [hfile.2.2.1]
    exact hfile.2.2.2
  · obtain rfl := Option.some.inj hd
    exact ⟨by decide, Or.inr ⟨hblank.2.2.1, 0, hblank.2.2.2⟩⟩

theorem oneFileDisk_wellFormed : WellFormed smallVolume oneFileDisk.store := by
  have heval : endOfChain ≤ (smallVolume.view blankDisk).fat 2 % 2 ^ 28 ∧
      (((smallVolume.view blankDisk).live (smallVolume.slots [2])).all fun t =>
        ((smallVolume.view blankDisk).entry t).name != oneLetter 0x41#8) ∧
      smallVolume.clustersFor 3 ≤ (smallVolume.view blankDisk).freeClusters.length ∧
      ((smallVolume.view blankDisk).entry ⟨smallVolume.directoryOf 0, 0⟩).isFree = true := by
    decide +kernel
  obtain ⟨hroot, habsent, henough, hfree⟩ := heval
  exact @WellFormed.writeFile smallVolume ⟨blankDisk, []⟩ (oneLetter 0x41#8) (fun _ => 0x2A#8) 3 0
    blankDisk_wellFormed smallVolume_geometry .root (newName_small hroot (by decide) habsent)
    (by decide) (by decide) (by decide) (Or.inr ⟨henough, 0, by decide, hfree⟩)

theorem fullDisk_wellFormed : WellFormed smallVolume fullDisk := by
  have heval : endOfChain ≤ (smallVolume.view fullDisk).fat 2 % 2 ^ 28 ∧
      ((smallVolume.slots [2]).all fun s => ((smallVolume.view fullDisk).entry s).first != 0) ∧
      ((smallVolume.slots [2]).all fun s =>
        ((smallVolume.view fullDisk).entry s).firstCluster == 0 &&
        ((smallVolume.view fullDisk).entry s).fileSize == 0) ∧
      ((List.range 512).all fun k => fullDisk 1 k == fullDisk 0 k) ∧
      (List.range' 2 126).all fun x => (smallVolume.view fullDisk).fat x == 0 || x == 2 := by
    decide +kernel
  obtain ⟨hroot, hused, hempty, hmirror, hfree⟩ := heval
  exact wellFormed_small hmirror (flat_small hroot hused hempty) hfree

/-- With the directory full, `WriteFile` keeps a cluster that no entry names. -/
theorem directory_full_leak : Geometry smallVolume ∧ WellFormed smallVolume fullDisk ∧
    (FatCall.writeFile (oneLetter 0x5A#8) (fun _ => 0x2A#8) 3 0).Valid smallVolume ⟨fullDisk, []⟩ ∧
    ∃ d, (FatCall.writeFile (oneLetter 0x5A#8) (fun _ => 0x2A#8) 3 0).step smallVolume
        (some fullDisk) = some d ∧ ¬WellFormed smallVolume d := by
  have hbefore : endOfChain ≤ (smallVolume.view fullDisk).fat 2 % 2 ^ 28 ∧
      ((smallVolume.view fullDisk).live (smallVolume.slots [2])).all fun t =>
        ((smallVolume.view fullDisk).entry t).name != oneLetter 0x5A#8 := by
    decide +kernel
  obtain ⟨hroot, habsent⟩ := hbefore
  have hafter : endOfChain ≤ (smallVolume.view (smallVolume.writeFile ⟨fullDisk, []⟩
        (oneLetter 0x5A#8) (fun _ => 0x2A#8) 3 0).store).fat 2 % 2 ^ 28 ∧
      ((smallVolume.slots [2]).all fun s => ((smallVolume.view (smallVolume.writeFile ⟨fullDisk, []⟩
        (oneLetter 0x5A#8) (fun _ => 0x2A#8) 3 0).store).entry s).first != 0) ∧
      ((smallVolume.slots [2]).all fun s => ((smallVolume.view (smallVolume.writeFile ⟨fullDisk, []⟩
        (oneLetter 0x5A#8) (fun _ => 0x2A#8) 3 0).store).entry s).firstCluster == 0 &&
        ((smallVolume.view (smallVolume.writeFile ⟨fullDisk, []⟩
        (oneLetter 0x5A#8) (fun _ => 0x2A#8) 3 0).store).entry s).fileSize == 0) ∧
      (smallVolume.view (smallVolume.writeFile ⟨fullDisk, []⟩
        (oneLetter 0x5A#8) (fun _ => 0x2A#8) 3 0).store).fat 3 ≠ 0 := by
    decide +kernel
  obtain ⟨hroot', hused', hempty', htaken⟩ := hafter
  refine ⟨smallVolume_geometry, fullDisk_wellFormed,
    ⟨⟨.root, newName_small hroot (by decide) habsent⟩, by decide, by decide⟩, _, rfl, fun h => ?_⟩
  have hflat := flat_small hroot' hused' hempty'
  obtain ⟨o, c, cs, ho, hc, hmem⟩ := h.covered 3 (by decide) (by decide) htaken
  rw [(hflat.owner ho).2] at hc
  rw [hc.unique hflat.chain] at hmem
  exact absurd hmem (by decide)

end Sylphia
