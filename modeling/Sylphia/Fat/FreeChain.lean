import Sylphia.Fat.Search

/-!
# Freeing a chain of any shape

`FreeChain` reads the link of a cluster and then clears it. It needs no sound FAT: on a cycle
it comes back to a cluster that it has cleared, and stops there.
-/

namespace Sylphia

open Bytes WriteLog Chain FAT32Driver Relation

/-- `FreeChain` goes on from one cluster to the other. -/
def View.Follows (V : View) (c d : Nat) : Prop := d = V.next c ∧ 2 ≤ d ∧ d < endOfChain

/-- The clusters that are reached from a cluster by the links. -/
def View.Reaches (V : View) : Nat → Nat → Prop := ReflTransGen V.Follows

/-- No link on the way from a cluster leads to a cluster behind the FAT. -/
def LinksInside (fs : FAT32Driver) (V : View) (c : Nat) : Prop :=
  ∀ x y, V.Reaches c x → V.Follows x y → y < fs.fatSz32 * 128

section Links

variable {fs : FAT32Driver} {V V' : View} {c x : Nat}

/-- The links of a FAT with one entry cleared. -/
theorem follows_cleared (hV : V'.fat = Function.update V.fat c 0) :
    V'.Follows = fun a b => V.Follows a b ∧ a ≠ c := by
  funext a b
  refine propext ?_
  by_cases ha : a = c
  · rw [View.Follows, View.next, hV, ha, Function.update_self]
    simp only [Nat.zero_mod, ne_eq, not_true_eq_false, and_false, iff_false]
    omega
  · rw [View.Follows, View.Follows, View.next, View.next, hV, Function.update_of_ne ha]
    simp only [ne_eq, ha, not_false_eq_true, and_true]

theorem reaches_iff (hV : V'.fat = Function.update V.fat c 0) :
    V.Reaches c x ↔ x = c ∨ (2 ≤ V.next c ∧ V.next c < endOfChain ∧ V'.Reaches (V.next c) x) := by
  rw [View.Reaches, met_iff_cut, View.Reaches, follows_cleared hV]
  refine or_congr_right ⟨?_, ?_⟩
  · rintro ⟨d, ⟨rfl, h2, hend⟩, hx⟩
    exact ⟨h2, hend, hx⟩
  · rintro ⟨h2, hend, hx⟩
    exact ⟨_, ⟨rfl, h2, hend⟩, hx⟩

theorem LinksInside.cleared (h : LinksInside fs V c) (hV : V'.fat = Function.update V.fat c 0)
    (h2 : 2 ≤ V.next c) (hend : V.next c < endOfChain) : LinksInside fs V' (V.next c) := by
  intro x y hx hxy
  rw [follows_cleared hV] at hxy
  exact h x y ((reaches_iff hV).mpr (Or.inr ⟨h2, hend, hx⟩)) hxy.1

/-- The entries of the FAT that still have a link. -/
def View.linked (V : View) (n : Nat) : Finset Nat := (Finset.range n).filter fun x => V.next x ≠ 0

theorem card_linked_cleared {n : Nat} (hV : V'.fat = Function.update V.fat c 0) (hc : c < n)
    (hlink : V.next c ≠ 0) : (V'.linked n).card < (V.linked n).card := by
  refine Finset.card_lt_card ⟨fun x hx => ?_, fun hsub => ?_⟩
  · rw [View.linked, Finset.mem_filter] at hx ⊢
    refine ⟨hx.1, fun h0 => hx.2 ?_⟩
    by_cases hxc : x = c
    · rw [View.next, hV, hxc, Function.update_self, Nat.zero_mod]
    · rw [View.next, hV, Function.update_of_ne hxc]
      exact h0
  · have hmem : c ∈ V.linked n := Finset.mem_filter.mpr ⟨Finset.mem_range.mpr hc, hlink⟩
    have hnext := (Finset.mem_filter.mp (hsub hmem)).2
    rw [View.next, hV, Function.update_self] at hnext
    exact hnext rfl

end Links

/-- The writes go in pairs to both FATs: a sector of the second FAT that was written is that of
the first, and the other sectors of both are as they were. -/
def WritesBoth (fs : FAT32Driver) (dev dev' : BlockDevice) : Prop :=
  ∃ (ws : List (Nat × Buffer)) (is : List Nat), dev'.log = dev.log ++ ws ∧
    (∀ w ∈ ws, ∃ i ∈ is, w.1 = fs.fatStartLba + i ∨ w.1 = fs.fatStartLba + fs.fatSz32 + i) ∧
    (∀ i ∈ is, i < fs.fatSz32 ∧
      dev'.store (fs.fatStartLba + fs.fatSz32 + i) = dev'.store (fs.fatStartLba + i)) ∧
    ∀ lba, (∀ i ∈ is, lba ≠ fs.fatStartLba + i ∧ lba ≠ fs.fatStartLba + fs.fatSz32 + i) →
      dev'.store lba = dev.store lba

section Both

variable {fs : FAT32Driver} {dev dev' dev'' : BlockDevice} {c v : Nat}

theorem WritesBoth.refl (fs : FAT32Driver) (dev : BlockDevice) : WritesBoth fs dev dev :=
  ⟨[], [], (List.append_nil _).symm, by simp, by simp, fun _ _ => rfl⟩

theorem WritesBoth.trans (h : WritesBoth fs dev dev') (h' : WritesBoth fs dev' dev'') :
    WritesBoth fs dev dev'' := by
  obtain ⟨ws, is, hlog, hwrites, hsame, hrest⟩ := h
  obtain ⟨ws', is', hlog', hwrites', hsame', hrest'⟩ := h'
  refine ⟨ws ++ ws', is ++ is', ?_, fun w hw => ?_, fun i hi => ?_, fun lba hlba => ?_⟩
  · rw [hlog', hlog, List.append_assoc]
  · rcases List.mem_append.mp hw with hw | hw
    · obtain ⟨i, hi, hwi⟩ := hwrites w hw
      exact ⟨i, List.mem_append_left _ hi, hwi⟩
    · obtain ⟨i, hi, hwi⟩ := hwrites' w hw
      exact ⟨i, List.mem_append_right _ hi, hwi⟩
  · by_cases hi' : i ∈ is'
    · exact hsame' i hi'
    · obtain ⟨hlt, heq⟩ := hsame i ((List.mem_append.mp hi).resolve_right hi')
      -- The sector is not written again, neither in the first FAT nor in the second.
      have hkeep : ∀ j ∈ is', j ≠ i ∧ j < fs.fatSz32 := fun j hj =>
        ⟨fun hji => hi' (hji ▸ hj), (hsame' j hj).1⟩
      rw [hrest' _ fun j hj => by have := hkeep j hj; omega,
        hrest' _ fun j hj => by have := hkeep j hj; omega]
      exact ⟨hlt, heq⟩
  · rw [hrest' lba fun i hi => hlba i (List.mem_append_right _ hi),
      hrest lba fun i hi => hlba i (List.mem_append_left _ hi)]

theorem WritesBoth.mirrored (h : WritesBoth fs dev dev') (hm : Mirrored fs dev.store) :
    Mirrored fs dev'.store := by
  obtain ⟨-, is, -, -, hsame, hrest⟩ := h
  intro k hk
  by_cases h0 : 0 ∈ is
  · rw [← Nat.add_zero (fs.fatStartLba + fs.fatSz32), (hsame 0 h0).2, Nat.add_zero]
  · have hkeep : ∀ i ∈ is, i ≠ 0 ∧ i < fs.fatSz32 := fun i hi =>
      ⟨fun hi0 => h0 (hi0 ▸ hi), (hsame i hi).1⟩
    rw [hrest _ fun i hi => by have := hkeep i hi; omega,
      hrest _ fun i hi => by have := hkeep i hi; omega]
    exact hm k hk

/-- The sectors of a cluster's entry, in both FATs. -/
def FAT32Driver.EntrySector (fs : FAT32Driver) (c lba : Nat) : Prop :=
  lba = fs.fatStartLba + c / 128 ∨ lba = fs.fatStartLba + fs.fatSz32 + c / 128

theorem linkCluster_frame (dev : BlockDevice) (v : Nat) {lba : Nat} (h : ¬fs.EntrySector c lba) :
    (fs.linkCluster dev c v).store lba = dev.store lba := by
  rw [FAT32Driver.EntrySector, not_or] at h
  rw [linkCluster, writeSectors_one, writeSectors_one, Logged.write_store_of_ne _ (by omega),
    Logged.write_store_of_ne _ h.1]

/-- `LinkCluster` sets one entry, in both FATs. -/
theorem linkCluster_both (dev : BlockDevice) (hc : c < fs.fatSz32 * 128) (v : Nat) :
    (fs.view (fs.linkCluster dev c v).store).fat =
        Function.update (fs.view dev.store).fat c (v % 2 ^ 32) ∧
      WritesBoth fs dev (fs.linkCluster dev c v) := by
  have hsec : c / 128 < fs.fatSz32 := Nat.div_lt_of_lt_mul (by omega)
  have hframe (lba : Nat) := @linkCluster_frame fs c dev v lba
  rw [linkCluster, writeSectors_one, writeSectors_one] at hframe ⊢
  constructor
  · show (fs.view (Function.update (Function.update _ _ _) _ _)).fat = _
    rw [fat_write_of_ge (by omega), fat_write_fat hc fun k hk => ?_]
    rw [Nat.zero_mul, Nat.zero_add, setFatEntry, setFatEntry, splice, splice, read_of_lt dev hk]
  · refine ⟨_, [c / 128], List.append_assoc .., fun w hw => ?_, fun i hi => ?_, fun lba hlba => ?_⟩
    · refine ⟨c / 128, List.mem_singleton_self _, ?_⟩
      rcases List.mem_append.mp hw with hw | hw
      · left
        rw [List.mem_singleton.mp hw]
      · right
        rw [List.mem_singleton.mp hw]
        omega
    · rw [List.mem_singleton.mp hi, Nat.add_right_comm, Logged.write_store_self,
        Logged.write_store_of_ne _ (by omega), Logged.write_store_self]
      exact ⟨hsec, rfl⟩
    · have hne := hlba _ (List.mem_singleton_self _)
      exact hframe lba fun h => h.elim hne.1 hne.2

end Both

/-- From a cluster on, what is reached is free, and nothing else of the FAT has changed. -/
structure FreesReached (fs : FAT32Driver) (dev dev' : BlockDevice) (c : Nat) : Prop where
  freed : ∀ x, (fs.view dev.store).Reaches c x → (fs.view dev'.store).fat x = 0
  kept : ∀ x, ¬(fs.view dev.store).Reaches c x →
    (fs.view dev'.store).fat x = (fs.view dev.store).fat x
  both : WritesBoth fs dev dev'
  frame : ∀ lba, (∀ x, (fs.view dev.store).Reaches c x → ¬fs.EntrySector x lba) →
    dev'.store lba = dev.store lba

section Loop

variable {fs : FAT32Driver} {dev : BlockDevice} {c n : Nat}

theorem freeChainLoop_stop (hc : ¬(c ≥ 2 ∧ c < endOfChain)) (hn : 0 < n) :
    fs.freeChainLoop n dev c = some dev := by
  obtain ⟨n, rfl⟩ := Nat.exists_eq_succ_of_ne_zero (Nat.ne_of_gt hn)
  rw [freeChainLoop, if_neg hc]

/-- Each round clears a link, until one leads nowhere. -/
theorem freeChainLoop_reached (hlinks : LinksInside fs (fs.view dev.store) c) (h2 : 2 ≤ c)
    (hc : c < fs.fatSz32 * 128) (hend : c < endOfChain)
    (hn : ((fs.view dev.store).linked endOfChain).card + 1 < n) :
    ∃ dev', fs.freeChainLoop n dev c = some dev' ∧ FreesReached fs dev dev' c := by
  induction n generalizing dev c with
  | zero => exact absurd hn (Nat.not_lt_zero _)
  | succ n ih =>
    obtain ⟨hfat, hboth⟩ := linkCluster_both dev hc 0
    rw [Nat.zero_mod] at hfat
    have hnext : fs.getNextCluster dev c = (fs.view dev.store).next c := getNextCluster_eq dev hc
    rw [freeChainLoop, if_pos ⟨h2, hend⟩, hnext]
    by_cases hgo : 2 ≤ (fs.view dev.store).next c ∧ (fs.view dev.store).next c < endOfChain
    · have hin := hlinks c _ .refl ⟨rfl, hgo.1, hgo.2⟩
      have hcard := card_linked_cleared hfat hend (by omega)
      obtain ⟨dev', heq, hfreed, hkept, hboth', hframe⟩ :=
        ih (hlinks.cleared hfat hgo.1 hgo.2) hgo.1 hin hgo.2 (by omega)
      refine ⟨dev', heq, fun x hx => ?_, fun x hx => ?_, hboth.trans hboth', fun lba hlba => ?_⟩
      · by_cases hrest : (fs.view (fs.linkCluster dev c 0).store).Reaches
          ((fs.view dev.store).next c) x
        · exact hfreed x hrest
        · obtain rfl := ((reaches_iff hfat).mp hx).resolve_right fun h => hrest h.2.2
          rw [hkept x hrest, hfat, Function.update_self]
      · rw [reaches_iff hfat, not_or] at hx
        rw [hkept x fun h => hx.2 ⟨hgo.1, hgo.2, h⟩, hfat, Function.update_of_ne hx.1]
      · rw [hframe lba fun x hx => hlba x ((reaches_iff hfat).mpr (Or.inr ⟨hgo.1, hgo.2, hx⟩)),
          linkCluster_frame dev 0 (hlba c .refl)]
    · refine ⟨_, freeChainLoop_stop hgo (by omega), fun x hx => ?_, fun x hx => ?_, hboth,
        fun lba hlba => linkCluster_frame dev 0 (hlba c .refl)⟩
      · obtain rfl := ((reaches_iff hfat).mp hx).resolve_right fun h => hgo ⟨h.1, h.2.1⟩
        rw [hfat, Function.update_self]
      · rw [reaches_iff hfat, not_or] at hx
        rw [hfat, Function.update_of_ne hx.1]

/-- `FreeChain` ends, and frees what is reached. -/
theorem freeChain_reached (hlinks : LinksInside fs (fs.view dev.store) c) (h2 : 2 ≤ c)
    (hc : c < fs.fatSz32 * 128) (hend : c < endOfChain) :
    ∃ dev', fs.freeChain dev c = some dev' ∧ FreesReached fs dev dev' c := by
  have hcard : ((fs.view dev.store).linked endOfChain).card ≤ endOfChain :=
    (Finset.card_filter_le _ _).trans (Finset.card_range _).le
  refine freeChainLoop_reached hlinks h2 hc hend
    (Nat.lt_of_le_of_lt (Nat.add_le_add_right hcard 1) ?_)
  decide

end Loop

section Chains

variable {fs : FAT32Driver} {dev dev' : BlockDevice} {V : View} {c x : Nat} {cs : List Nat}

/-- A chain is what is reached from its first cluster. -/
theorem ClusterChain.reaches_iff (h : ClusterChain fs V c cs) : V.Reaches c x ↔ x ∈ cs := by
  constructor
  · intro hx
    induction hx with
    | refl => exact h.head_mem
    | @tail y z _ hyz ih =>
      obtain ⟨rfl, h2, hend⟩ := hyz
      obtain ⟨ds, hds, hsuf⟩ := h.suffix ih
      cases hds with
      | last _ hends => exact absurd hend (Nat.not_lt.mpr hends)
      | cons _ hrest => exact hsuf.subset (List.mem_cons_of_mem _ hrest.head_mem)
  · intro hx
    induction h with
    | last =>
      rw [List.mem_singleton.mp hx]
      exact .refl
    | cons _ hrest ih =>
      rcases List.mem_cons.mp hx with rfl | hx
      · exact .refl
      · have hv := hrest.valid_head
        exact .head ⟨rfl, hv.1, hv.2.2⟩ (ih hx)

theorem ClusterChain.linksInside (h : ClusterChain fs V c cs) : LinksInside fs V c := by
  intro x y hx hxy
  exact (h.valid ((reaches_iff h).mp (hx.tail hxy))).2.1

/-- What is written to both FATs is no data. -/
theorem WritesBoth.data (h : WritesBoth fs dev dev') (hg : Geometry fs) :
    (fs.view dev'.store).data = (fs.view dev.store).data := by
  obtain ⟨-, is, -, -, hsame, hrest⟩ := h
  have hstart := hg.dataStart
  funext x k
  have hle := dataStart_le_clusterToLBA fs x
  have hsec : dev'.store (fs.clusterToLBA x + k / 512) = dev.store (fs.clusterToLBA x + k / 512) :=
    hrest _ fun i hi => by
      have := (hsame i hi).1
      omega
  rw [view, view]
  dsimp only
  rw [hsec]

/-- The clusters are freed in both FATs, and nothing else is written. -/
structure ClustersFreed (fs : FAT32Driver) (dev dev' : BlockDevice) (cs : List Nat) : Prop where
  view : fs.view dev'.store = (fs.view dev.store).clear cs
  both : WritesBoth fs dev dev'
  frame : ∀ lba, (∀ x ∈ cs, ¬fs.EntrySector x lba) → dev'.store lba = dev.store lba

theorem ClustersFreed.refl (fs : FAT32Driver) (dev : BlockDevice) : ClustersFreed fs dev dev [] :=
  ⟨(View.clear_nil _).symm, .refl fs dev, fun _ _ => rfl⟩

/-- `FreeChain` frees the clusters of a chain. -/
theorem freeChain_eq (hg : Geometry fs) (h : ClusterChain fs (fs.view dev.store) c cs) :
    ∃ dev', fs.freeChain dev c = some dev' ∧ ClustersFreed fs dev dev' cs := by
  have hv := h.valid_head
  obtain ⟨dev', heq, hfreed, hkept, hboth, hframe⟩ :=
    freeChain_reached (ClusterChain.linksInside h) hv.1 hv.2.1 hv.2.2
  refine ⟨dev', heq, View.ext (funext fun x => ?_) (hboth.data hg), hboth, fun lba hlba =>
    hframe lba fun x hx => hlba x ((ClusterChain.reaches_iff h).mp hx)⟩
  rw [View.clear]
  dsimp only
  split
  · next hx => exact hfreed x ((ClusterChain.reaches_iff h).mpr hx)
  · next hx => exact hkept x fun hr => hx ((ClusterChain.reaches_iff h).mp hr)

end Chains

end Sylphia
