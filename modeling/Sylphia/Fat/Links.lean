import Sylphia.Core.LinkWalk
import Sylphia.Fat.Delete
import Sylphia.Fat.ListDirectory

/-!
# Links that are followed

The loops of the driver follow links that the device holds. Where they end is read off the
clusters on the way; they get to the same slot on another device on which the way is the same, as
it is when the data of a file are written beside it.
-/

namespace Sylphia

open Bytes WriteLog LinkWalk

open FAT32Driver

namespace FAT32Driver

variable (fs : FAT32Driver) (dev : BlockDevice)

/-- What the search of `DeleteFile` gets from a cluster. -/
def searchOut (name : List Byte) (c : Nat) : Option (Option Slot) :=
  if c < endOfChain then
    match scanSlots (BlockDevice.read dev (fs.clusterToLBA c)) name fs.slotsPerCluster 0 with
    | .found i => some (some ⟨c, i⟩)
    | _ => none
  else some none

/-- `AppendFile` stops at a cluster before an end mark. -/
def lastOut (c : Nat) : Option Nat := if fs.getNextCluster dev c ≥ endOfChain then some c else none

/-- `ListDirectory` stops at an end mark. -/
def listOut (c : Nat) : Option Unit := if c < endOfChain then none else some ()

/-- The links lead to an end mark. -/
def ChainEnds (c : Nat) : Prop := ∃ k, endOfChain ≤ (fs.getNextCluster dev)^[k] c

/-- A cluster has a live entry of the name, before its end of the directory. -/
def HasMatch (name : List Byte) (c : Nat) : Prop :=
  ∃ i, scanSlots (BlockDevice.read dev (fs.clusterToLBA c)) name fs.slotsPerCluster 0 = .found i

/-- The links lead to an end mark, or to a cluster that has an entry of the name. -/
def SearchEnds (name : List Byte) (d : Nat) : Prop :=
  ∃ k, endOfChain ≤ (fs.getNextCluster dev)^[k] d ∨
    fs.HasMatch dev name ((fs.getNextCluster dev)^[k] d)

/-- The links lead to this cluster, which is the first before an end mark. -/
def IsLast (c last : Nat) : Prop := ∃ k, EndsAt (fs.getNextCluster dev) (fs.lastOut dev) c k last

end FAT32Driver

section Walks

variable {fs : FAT32Driver} {dev : BlockDevice} {name : List Byte} {c d k n last : Nat}
  {r : Option Slot}

theorem searchLoop_eq_follow (fs : FAT32Driver) (dev : BlockDevice) (name : List Byte) (n c : Nat) :
    fs.searchLoop dev name n c = follow (fs.getNextCluster dev) (fs.searchOut dev name) n c := by
  induction n generalizing c with
  | zero => rfl
  | succ n ih =>
    rw [searchLoop, follow, searchOut]
    split
    · cases scanSlots (BlockDevice.read dev (fs.clusterToLBA c)) name fs.slotsPerCluster 0 with
      | found i => rfl
      | ended => exact ih _
      | exhausted => exact ih _
    · rfl

theorem lastLoop_eq_follow (fs : FAT32Driver) (dev : BlockDevice) (n c : Nat) :
    fs.lastLoop dev n c = follow (fs.getNextCluster dev) (fs.lastOut dev) n c := by
  induction n generalizing c with
  | zero => rfl
  | succ n ih =>
    rw [lastLoop, follow, lastOut]
    split
    · rfl
    · exact ih _

theorem isSome_listLoop (fs : FAT32Driver) (dev : BlockDevice) (n c : Nat) :
    (fs.listLoop dev n c).isSome = (follow (fs.getNextCluster dev) listOut n c).isSome := by
  induction n generalizing c with
  | zero => rfl
  | succ n ih =>
    rw [listLoop, follow, listOut]
    split
    · rw [Option.isSome_map]
      exact ih _
    · rfl

theorem isSome_searchOut : (fs.searchOut dev name c).isSome ↔ endOfChain ≤ c ∨
    fs.HasMatch dev name c := by
  rw [searchOut, HasMatch]
  by_cases hc : c < endOfChain
  · rw [if_pos hc]
    cases scanSlots (BlockDevice.read dev (fs.clusterToLBA c)) name fs.slotsPerCluster 0 with
    | found i => simp
    | ended => simp [Nat.not_le.mpr hc]
    | exhausted => simp [Nat.not_le.mpr hc]
  · rw [if_neg hc]
    simp [Nat.not_lt.mp hc]

/-- Some number of rounds is enough for the search exactly when the links end, or lead to a
match. -/
theorem exists_searchLoop_iff :
    (∃ n r, fs.searchLoop dev name n d = some r) ↔ fs.SearchEnds dev name d := by
  have hwalk := @exists_follow_iff _ _ (fs.getNextCluster dev) (fs.searchOut dev name) d
  simp only [isSome_searchOut] at hwalk
  rw [SearchEnds, ← hwalk]
  simp only [searchLoop_eq_follow, Option.isSome_iff_exists]

theorem exists_lastLoop_iff : (∃ n, fs.lastLoop dev n c = some last) ↔ fs.IsLast dev c last := by
  simp only [lastLoop_eq_follow]
  exact exists_follow_eq_some_iff

theorem exists_listLoop_iff :
    (∃ n, (fs.listLoop dev n c).isSome) ↔ fs.ChainEnds dev c := by
  have hout (x : Nat) : (listOut x).isSome ↔ endOfChain ≤ x := by
    rw [listOut]
    split <;> simp <;> omega
  have hwalk := @exists_follow_iff _ _ (fs.getNextCluster dev) listOut c
  simp only [hout] at hwalk
  simp only [isSome_listLoop]
  exact hwalk

theorem IsLast.unique {l l' : Nat} (h : fs.IsLast dev c l) (h' : fs.IsLast dev c l') : l = l' := by
  obtain ⟨k, h⟩ := h
  obtain ⟨k', h'⟩ := h'
  exact (h.unique h').2

theorem searchLoop_of_le {m : Nat} (h : fs.searchLoop dev name n d = some r) (hle : n ≤ m) :
    fs.searchLoop dev name m d = some r := by
  rw [searchLoop_eq_follow] at h ⊢
  exact follow_of_le h hle

theorem lastLoop_of_le {m : Nat} (h : fs.lastLoop dev n c = some last) (hle : n ≤ m) :
    fs.lastLoop dev m c = some last := by
  rw [lastLoop_eq_follow] at h ⊢
  exact follow_of_le h hle

/-! The rounds that the model gives these loops are as good as any number. -/

theorem card_range_endOfChain : (Finset.range endOfChain).card < loopBound := by
  rw [Finset.card_range]
  decide

theorem searchLoop_loopBound :
    fs.searchLoop dev name loopBound d = some r ↔ ∃ n, fs.searchLoop dev name n d = some r := by
  simp only [searchLoop_eq_follow, exists_follow_eq_some_iff]
  refine follow_card (fun j hj => ?_) card_range_endOfChain
  have hnone := hj j le_rfl
  rw [searchOut] at hnone
  split at hnone
  · next hlt => exact Finset.mem_range.mpr hlt
  · cases hnone

theorem isSome_listLoop_loopBound :
    (fs.listLoop dev loopBound c).isSome ↔ ∃ n, (fs.listLoop dev n c).isSome := by
  simp only [isSome_listLoop, Option.isSome_iff_exists]
  rw [exists_comm]
  refine exists_congr fun b => ?_
  rw [exists_follow_eq_some_iff]
  refine follow_card (fun j hj => ?_) card_range_endOfChain
  have hnone := hj j le_rfl
  rw [listOut] at hnone
  split at hnone
  · next hlt => exact Finset.mem_range.mpr hlt
  · cases hnone

theorem lastLoop_loopBound :
    fs.lastLoop dev loopBound c = some last ↔ ∃ n, fs.lastLoop dev n c = some last := by
  simp only [lastLoop_eq_follow, exists_follow_eq_some_iff]
  have hcard : (insert c (Finset.range endOfChain)).card < loopBound := by
    refine lt_of_le_of_lt (Finset.card_insert_le _ _) ?_
    rw [Finset.card_range]
    decide
  refine follow_card (fun j hj => ?_) hcard
  cases j with
  | zero => exact Finset.mem_insert_self _ _
  | succ j =>
    have hnone := hj j (Nat.le_succ j)
    rw [lastOut] at hnone
    split at hnone
    · cases hnone
    · next hlt =>
      rw [Function.iterate_succ_apply']
      exact Finset.mem_insert_of_mem (Finset.mem_range.mpr (Nat.lt_of_not_ge hlt))

end Walks

/-! ## The way to an entry -/

namespace FAT32Driver

variable (fs : FAT32Driver) (dev : BlockDevice)

/-- The search loops get to a slot after `k` links: no cluster before has a live entry of the name
in front of its end mark, and the slot is that of the first one in its cluster. -/
def FirstMatch (name : List Byte) (d k : Nat) (s : Slot) : Prop :=
  (fs.getNextCluster dev)^[k] d = s.cluster ∧ s.cluster < endOfChain ∧
    scanSlots (BlockDevice.read dev (fs.clusterToLBA s.cluster)) name fs.slotsPerCluster 0 =
      .found s.index ∧
    ∀ j < k, (fs.getNextCluster dev)^[j] d < endOfChain ∧
      ¬fs.HasMatch dev name ((fs.getNextCluster dev)^[j] d)

/-- On the way there, no cluster has an end mark and no number is below 2. -/
def InFront (name : List Byte) (d k : Nat) : Prop :=
  (∀ j ≤ k, 2 ≤ (fs.getNextCluster dev)^[j] d) ∧
    ∀ j < k, scanSlots (BlockDevice.read dev (fs.clusterToLBA ((fs.getNextCluster dev)^[j] d))) name
      fs.slotsPerCluster 0 ≠ .ended

/-- Another device has the same clusters and links on the way along `k` links. -/
def SameWay (dev' : BlockDevice) (d k : Nat) : Prop :=
  (∀ j < k, fs.getNextCluster dev' ((fs.getNextCluster dev)^[j] d) =
      fs.getNextCluster dev ((fs.getNextCluster dev)^[j] d)) ∧
    ∀ j ≤ k, ∀ i < fs.clusterBytes,
      BlockDevice.read dev' (fs.clusterToLBA ((fs.getNextCluster dev)^[j] d)) i =
        BlockDevice.read dev (fs.clusterToLBA ((fs.getNextCluster dev)^[j] d)) i

/-- What `FindDirectoryEntry` gets from a cluster. -/
def findOut (name : List Byte) (c : Nat) : Option (Option Slot) :=
  if c < endOfChain ∧ c ≥ 2 then
    match scanSlots (BlockDevice.read dev (fs.clusterToLBA c)) name fs.slotsPerCluster 0 with
    | .found i => some (some ⟨c, i⟩)
    | .ended => some none
    | .exhausted => none
  else some none

end FAT32Driver

section Searches

variable {fs : FAT32Driver} {dev dev' : BlockDevice} {name : List Byte} {d k n : Nat} {s : Slot}

theorem findLoop_eq_follow (fs : FAT32Driver) (dev : BlockDevice) (name : List Byte) (n c : Nat) :
    fs.findLoop dev name n c =
      (follow (fs.getNextCluster dev) (fs.findOut dev name) n c).join := by
  induction n generalizing c with
  | zero => rfl
  | succ n ih =>
    rw [findLoop, follow, findOut]
    split
    · cases scanSlots (BlockDevice.read dev (fs.clusterToLBA c)) name fs.slotsPerCluster 0 with
      | found i => rfl
      | ended => rfl
      | exhausted => exact ih _
    · rfl

theorem searchOut_eq_none {c : Nat} :
    fs.searchOut dev name c = none ↔ c < endOfChain ∧ ¬fs.HasMatch dev name c := by
  rw [← Option.not_isSome_iff_eq_none, isSome_searchOut, not_or, Nat.not_le]

theorem searchOut_eq_slot {c : Nat} : fs.searchOut dev name c = some (some s) ↔
    c = s.cluster ∧ s.cluster < endOfChain ∧
      scanSlots (BlockDevice.read dev (fs.clusterToLBA s.cluster)) name fs.slotsPerCluster 0 =
        .found s.index := by
  obtain ⟨x, i⟩ := s
  rw [searchOut]
  constructor
  · intro h
    split_ifs at h with hc
    · cases hscan : scanSlots (BlockDevice.read dev (fs.clusterToLBA c))
        name fs.slotsPerCluster 0 with
      | found j =>
        rw [hscan] at h
        cases h
        exact ⟨rfl, hc, hscan⟩
      | ended =>
        rw [hscan] at h
        cases h
      | exhausted =>
        rw [hscan] at h
        cases h
    · cases h
  · rintro ⟨rfl, hc, hscan⟩
    dsimp only at hc hscan
    rw [if_pos hc, hscan]

theorem findOut_eq_none {c : Nat} : fs.findOut dev name c = none ↔
    (c < endOfChain ∧ ¬fs.HasMatch dev name c) ∧ 2 ≤ c ∧
      scanSlots (BlockDevice.read dev (fs.clusterToLBA c)) name fs.slotsPerCluster 0 ≠ .ended := by
  rw [findOut, HasMatch]
  by_cases hc : c < endOfChain ∧ c ≥ 2
  · rw [if_pos hc]
    cases scanSlots (BlockDevice.read dev (fs.clusterToLBA c)) name fs.slotsPerCluster 0 with
    | found j => simp
    | ended => simp
    | exhausted => simp [hc.1, hc.2]
  · rw [if_neg hc]
    exact iff_of_false (by simp) fun h => hc ⟨h.1.1, h.2.1⟩

theorem findOut_eq_slot {c : Nat} : fs.findOut dev name c = some (some s) ↔
    fs.searchOut dev name c = some (some s) ∧ 2 ≤ c := by
  rw [findOut, searchOut]
  by_cases h2 : 2 ≤ c
  · by_cases hc : c < endOfChain
    · rw [if_pos ⟨hc, h2⟩, if_pos hc]
      cases scanSlots (BlockDevice.read dev (fs.clusterToLBA c)) name fs.slotsPerCluster 0 with
      | found j => simp [h2]
      | ended => simp
      | exhausted => simp
    · rw [if_neg fun h => hc h.1, if_neg hc]
      simp
  · rw [if_neg fun h => h2 h.2]
    exact iff_of_false (by simp) fun h => h2 h.2

/-- A search loop ends with the first match. -/
theorem endsAt_slot_iff : EndsAt (fs.getNextCluster dev) (fs.searchOut dev name) d k (some s) ↔
    fs.FirstMatch dev name d k s := by
  simp only [EndsAt, FirstMatch, searchOut_eq_slot, searchOut_eq_none, and_assoc]

/-- `FindDirectoryEntry` finds the first match, if that is in front of the end marks and within the
rounds that it counts. -/
theorem findLoop_eq_some_iff : fs.findLoop dev name n d = some s ↔
    ∃ k < n, fs.FirstMatch dev name d k s ∧ fs.InFront dev name d k := by
  rw [findLoop_eq_follow, Option.join_eq_some_iff, follow_eq_some_iff]
  refine exists_congr fun k => and_congr_right fun _ => ?_
  rw [← endsAt_slot_iff, InFront]
  simp only [EndsAt, findOut_eq_none, findOut_eq_slot, ← searchOut_eq_none]
  constructor
  · rintro ⟨⟨hslot, h2⟩, hbefore⟩
    refine ⟨⟨hslot, fun j hj => (hbefore j hj).1⟩, fun j hj => ?_, fun j hj => (hbefore j hj).2.2⟩
    rcases Nat.lt_or_eq_of_le hj with hlt | rfl
    · exact (hbefore j hlt).2.1
    · exact h2
  · rintro ⟨⟨hslot, hbefore⟩, h2, hended⟩
    exact ⟨⟨hslot, h2 k le_rfl⟩, fun j hj => ⟨hbefore j hj, h2 j hj.le, hended j hj⟩⟩

theorem scanSlots_congr {buf buf' : Buffer} {i : Nat}
    (h : ∀ j, i ≤ j → j < i + n → dirEntry buf' j = dirEntry buf j) :
    scanSlots buf' name n i = scanSlots buf name n i := by
  induction n generalizing i with
  | zero => rfl
  | succ n ih =>
    rw [scanSlots, scanSlots, h i le_rfl (by omega), ih fun j hj hlt => h j (by omega) (by omega)]

/-- A search with a match ends. -/
theorem searchEnds_of_firstMatch (h : fs.FirstMatch dev name d k s) : fs.SearchEnds dev name d :=
  ⟨k, Or.inr ⟨s.index, by rw [h.1]; exact h.2.2.1⟩⟩

/-- Where the way is the same, the first match is. -/
theorem firstMatch_of_same (h : fs.FirstMatch dev name d k s) (hway : fs.SameWay dev dev' d k) :
    fs.FirstMatch dev' name d k s := by
  obtain ⟨hlinks, hdata⟩ := hway
  obtain ⟨hcluster, hend, hscan, hbefore⟩ := h
  have hiter : ∀ j ≤ k, (fs.getNextCluster dev')^[j] d = (fs.getNextCluster dev)^[j] d := by
    intro j hj
    induction j with
    | zero => rfl
    | succ j ih =>
      rw [Function.iterate_succ_apply', Function.iterate_succ_apply', ih (by omega), hlinks j hj]
  have hsame (j : Nat) (hj : j ≤ k) :
      scanSlots (BlockDevice.read dev' (fs.clusterToLBA ((fs.getNextCluster dev)^[j] d))) name
          fs.slotsPerCluster 0 =
        scanSlots (BlockDevice.read dev (fs.clusterToLBA ((fs.getNextCluster dev)^[j] d))) name
          fs.slotsPerCluster 0 := by
    refine scanSlots_congr fun i _ hi => slice_congr fun b hb => hdata j hj _ ?_
    rw [Nat.zero_add, slotsPerCluster] at hi
    rw [clusterBytes]
    omega
  refine ⟨(hiter k le_rfl).trans hcluster, hend, ?_, fun j hj => ?_⟩
  · rw [← hcluster, hsame k le_rfl, hcluster]
    exact hscan
  · rw [hiter j hj.le, HasMatch, hsame j hj.le]
    exact hbefore j hj

end Searches

/-! ## Data beside the way -/

/-- The entries of the FAT and the data of these clusters are the same. -/
def SameClusters (S : Nat → Prop) (V V' : View) : Prop :=
  ∀ x, S x → V'.fat x = V.fat x ∧ V'.data x = V.data x

/-- The clusters on the way along `k` links have entries in the FAT and are in use. The last cluster
of the file that starts with `first`, if it has clusters, has an entry too and is not on the way. -/
structure FAT32Driver.Beside (fs : FAT32Driver) (dev : BlockDevice) (d k first : Nat) : Prop where
  valid : ∀ j ≤ k, fs.links.valid ((fs.getNextCluster dev)^[j] d)
  used : ∀ j ≤ k, (fs.view dev.store).fat ((fs.getNextCluster dev)^[j] d) ≠ 0
  last : first ≠ 0 → ∀ last, fs.IsLast dev first last →
    fs.links.valid last ∧ ∀ j ≤ k, (fs.getNextCluster dev)^[j] d ≠ last

/-- What `AppendFile` writes to a file that it finds, before it comes back to the directory, is
beside the way to the entry. -/
def FAT32Driver.AppendsBeside (fs : FAT32Driver) (dev : BlockDevice) (name : List Byte)
    (size parentCluster : Nat) : Prop :=
  size ≠ 0 → ∀ s ∈ fs.findSlot dev name parentCluster,
    ((fs.slotEntry dev s).firstCluster = 0 → (fs.allocateCluster dev).1 ≠ 0) →
      Geometry fs ∧ ∀ k, fs.FirstMatch dev name (fs.directoryOf parentCluster) k s →
        fs.Beside dev (fs.directoryOf parentCluster) k (fs.slotEntry dev s).firstCluster

section Beside

variable {fs : FAT32Driver} {dev dev' dev₁ : BlockDevice} {S : Nat → Prop} {V V' V'' : View}
  {data : Buffer} {c d k first l last n offset oldSize prev remaining size : Nat}

theorem SameClusters.refl (S : Nat → Prop) (V : View) : SameClusters S V V :=
  fun _ _ => ⟨rfl, rfl⟩

theorem SameClusters.trans (h : SameClusters S V V') (h' : SameClusters S V' V'') :
    SameClusters S V V'' :=
  fun x hx => ⟨(h' x hx).1.trans (h x hx).1, (h' x hx).2.trans (h x hx).2⟩

theorem SameClusters.used (h : SameClusters S V V') (hused : ∀ x, S x → V.fat x ≠ 0) :
    ∀ x, S x → V'.fat x ≠ 0 := fun x hx => (h x hx).1 ▸ hused x hx

theorem sameClusters_setFat (hc : ¬S c) (v : Nat) : SameClusters S V (V.setFat c v) := by
  intro x hx
  have hne : x ≠ c := by
    rintro rfl
    exact hc hx
  exact ⟨View.setFat_fat_of_ne V hne v, rfl⟩

theorem sameClusters_setData (hc : ¬S c) (buf : Buffer) : SameClusters S V (V.setData c buf) := by
  intro x hx
  have hne : x ≠ c := by
    rintro rfl
    exact hc hx
  exact ⟨rfl, View.setData_data_of_ne V hne buf⟩

theorem sameClusters_linkCluster (hg : Geometry fs) (dev : BlockDevice)
    (hc : c < fs.fatSz32 * 128) (hS : ¬S c) (v : Nat) :
    SameClusters S (fs.view dev.store) (fs.view (fs.linkCluster dev c v).store) := by
  rw [(@linkCluster_view fs (fun _ => True) c hg dev hc v).1]
  exact sameClusters_setFat hS _

theorem sameClusters_writeCluster (hg : Geometry fs) (dev : BlockDevice) (h2 : 2 ≤ c)
    (h32 : c < 2 ^ 32) (hS : ¬S c) (buf : Buffer) :
    SameClusters S (fs.view dev.store)
      (fs.view (BlockDevice.writeSectors dev (fs.clusterToLBA c) buf fs.secPerClus).store) := by
  rw [(@writeCluster_view fs (fun _ => True) c hg dev h2 h32 buf).1]
  exact sameClusters_setData hS _

/-- A cluster that is allocated was free. -/
theorem sameClusters_allocateCluster (hg : Geometry fs)
    (hused : ∀ x, S x → (fs.view dev.store).fat x ≠ 0) (heq : fs.allocateCluster dev = (c, dev₁))
    (hc0 : c ≠ 0) :
    SameClusters S (fs.view dev.store) (fs.view dev₁.store) ∧ ¬S c ∧ fs.links.valid c := by
  rcases allocateCluster_view hg dev with ⟨hfull, -⟩ | ⟨c', dev'', heq', h2, h128, hfree, hview, -⟩
  · rw [heq, Prod.mk.injEq] at hfull
    exact absurd hfull.1 hc0
  · rw [heq, Prod.mk.injEq] at heq'
    obtain ⟨rfl, rfl⟩ := heq'
    have hpos := hg.fatSz32_pos
    have hfresh : ¬S c := fun hc => hused c hc hfree
    rw [hview]
    exact ⟨sameClusters_setFat hfresh _, hfresh, h2, by omega, by rw [endOfChain]; omega⟩

/-- The loop of `AppendFile` leaves clusters in use alone, if it does not start at one of them. -/
theorem sameClusters_appendLoop (hg : Geometry fs)
    (hused : ∀ x, S x → (fs.view dev.store).fat x ≠ 0) (hprev : prev < fs.fatSz32 * 128)
    (hS : ¬S prev) (hloop : fs.appendLoop data n dev remaining offset prev = some (last, dev')) :
    SameClusters S (fs.view dev.store) (fs.view dev'.store) ∧ last < fs.fatSz32 * 128 ∧
      ¬S last := by
  induction n generalizing dev remaining offset prev with
  | zero => cases hloop
  | succ n ih =>
    rw [appendLoop] at hloop
    split at hloop
    · cases hloop
      exact ⟨.refl _ _, hprev, hS⟩
    · cases halloc : fs.allocateCluster dev with
      | mk c dev₁ =>
        rw [halloc] at hloop
        dsimp only at hloop
        split at hloop
        · next hfull =>
          cases hloop
          rcases allocateCluster_view hg dev with ⟨heq, -⟩ | ⟨c', dev'', heq, h2, -⟩
          · rw [halloc, Prod.mk.injEq] at heq
            rw [heq.2]
            exact ⟨.refl _ _, hprev, hS⟩
          · rw [halloc, Prod.mk.injEq] at heq
            omega
        · next hc0 =>
          obtain ⟨hsame, hfresh, h2, hlt, h28⟩ := sameClusters_allocateCluster hg hused halloc hc0
          have hlink := hsame.trans (sameClusters_linkCluster hg dev₁ hprev hS c)
          have hstep := hlink.trans (sameClusters_writeCluster hg (fs.linkCluster dev₁ prev c) h2
            (h28.trans (by decide)) hfresh (dataBuffer data offset
              (if remaining > fs.clusterBytes then fs.clusterBytes else remaining)))
          obtain ⟨hrest, hend⟩ := ih (hstep.used hused) hlt hfresh hloop
          exact ⟨hstep.trans hrest, hend⟩

/-- The data of `AppendFile` leave clusters in use alone, if the last one of the file is not among
them. -/
theorem sameClusters_appendData (hg : Geometry fs)
    (hused : ∀ x, S x → (fs.view dev.store).fat x ≠ 0) (hl : fs.links.valid l) (hS : ¬S l)
    (data : Buffer) (size oldSize : Nat) :
    SameClusters S (fs.view dev.store)
      (fs.view (fs.appendData dev data size oldSize l).store) := by
  rw [appendData]
  cases hdata : fs.appendDataWithin (size + 1) dev data size oldSize l with
  | none => exact .refl _ _
  | some dev₂ =>
    rw [appendDataWithin] at hdata
    obtain ⟨r, hloop, rfl⟩ := Option.map_eq_some_iff.mp hdata
    dsimp only at hloop
    have hclose {dev₀ : BlockDevice} (hfill : SameClusters S (fs.view dev.store)
        (fs.view dev₀.store)) {n remaining offset : Nat}
        (hloop : fs.appendLoop data n dev₀ remaining offset l = some r) :
        SameClusters S (fs.view dev.store)
          (fs.view (fs.linkCluster r.2 r.1 0x0FFFFFFF).store) := by
      obtain ⟨hrest, hlt, hfresh⟩ := sameClusters_appendLoop hg (hfill.used hused) hl.2.1 hS hloop
      exact hfill.trans (hrest.trans (sameClusters_linkCluster hg r.2 hlt hfresh _))
    have hfill (p : Prop) [Decidable p] (buf : Buffer) : SameClusters S (fs.view dev.store)
        (fs.view (if p then BlockDevice.writeSectors dev (fs.clusterToLBA l) buf fs.secPerClus
          else dev).store) := by
      split
      · exact sameClusters_writeCluster hg dev hl.1 (hl.2.2.trans (by decide)) hS buf
      · exact .refl _ _
    exact hclose (hfill _ _) hloop

/-- A way is read from the FAT and the data of its clusters. -/
theorem SameClusters.sameWay
    (h : SameClusters (fun x => ∃ j ≤ k, (fs.getNextCluster dev)^[j] d = x) (fs.view dev.store)
      (fs.view dev'.store))
    (hvalid : ∀ j ≤ k, fs.links.valid ((fs.getNextCluster dev)^[j] d)) :
    fs.SameWay dev dev' d k := by
  refine ⟨fun j hj => ?_, fun j hj i hi => ?_⟩
  · obtain ⟨hfat, -⟩ := h _ ⟨j, hj.le, rfl⟩
    have hlt := (hvalid j hj.le).2.1
    rw [getNextCluster_eq dev' hlt, hfat, ← getNextCluster_eq dev hlt]
  · obtain ⟨-, hdata⟩ := h _ ⟨j, hj, rfl⟩
    obtain ⟨h2, -, h28⟩ := hvalid j hj
    have h32 := h28.trans (show endOfChain < 2 ^ 32 by decide)
    rw [read_cluster dev' h2 h32 hi, hdata, ← read_cluster dev h2 h32 hi]

variable (hg : Geometry fs) (h : fs.Beside dev d k first)
include hg h

/-- The way is the same with the data of a file that had no cluster. -/
theorem FAT32Driver.Beside.sameWay_new (heq : fs.allocateCluster dev = (c, dev₁)) (hc0 : c ≠ 0) :
    fs.SameWay dev (fs.appendData dev₁ data size oldSize c) d k := by
  have hused : ∀ x, (∃ j ≤ k, (fs.getNextCluster dev)^[j] d = x) →
      (fs.view dev.store).fat x ≠ 0 := by
    rintro _ ⟨j, hj, rfl⟩
    exact h.used j hj
  obtain ⟨hsame, hfresh, hc⟩ := sameClusters_allocateCluster hg hused heq hc0
  exact (hsame.trans (sameClusters_appendData hg (hsame.used hused) hc hfresh data size
    oldSize)).sameWay h.valid

/-- The way is the same with the data of a file that ends with this cluster. -/
theorem FAT32Driver.Beside.sameWay_last (hfirst : first ≠ 0) (hlast : fs.IsLast dev first last) :
    fs.SameWay dev (fs.appendData dev data size oldSize last) d k := by
  obtain ⟨hvalid, haway⟩ := h.last hfirst last hlast
  refine (sameClusters_appendData hg ?_ hvalid ?_ data size oldSize).sameWay h.valid
  · rintro _ ⟨j, hj, rfl⟩
    exact h.used j hj
  · rintro ⟨j, hj, heq⟩
    exact haway j hj heq

omit hg h in
/-- The slot that `AppendFile` finds is the first match when it comes back, for a file that had no
cluster. -/
theorem FAT32Driver.AppendsBeside.firstMatch_new {name : List Byte} {parentCluster : Nat} {s : Slot}
    (h : fs.AppendsBeside dev name size parentCluster) (hsize : size ≠ 0)
    (hfind : fs.findSlot dev name parentCluster = some s)
    (hc0 : (fs.allocateCluster dev).1 ≠ 0) :
    ∃ k, fs.FirstMatch (fs.appendData (fs.allocateCluster dev).2 data size oldSize
      (fs.allocateCluster dev).1) name (fs.directoryOf parentCluster) k s := by
  obtain ⟨k, -, hfirst, -⟩ := findLoop_eq_some_iff.mp hfind
  obtain ⟨hg, hbeside⟩ := h hsize s hfind fun _ => hc0
  exact ⟨k, firstMatch_of_same hfirst ((hbeside k hfirst).sameWay_new hg rfl hc0)⟩

omit hg h in
/-- The same for a file that ends with this cluster. -/
theorem FAT32Driver.AppendsBeside.firstMatch_last {name : List Byte} {parentCluster : Nat}
    {s : Slot} (h : fs.AppendsBeside dev name size parentCluster) (hsize : size ≠ 0)
    (hfind : fs.findSlot dev name parentCluster = some s)
    (h0 : (fs.slotEntry dev s).firstCluster ≠ 0)
    (hlast : fs.IsLast dev (fs.slotEntry dev s).firstCluster last) :
    ∃ k, fs.FirstMatch (fs.appendData dev data size oldSize last) name
      (fs.directoryOf parentCluster) k s := by
  obtain ⟨k, -, hfirst, -⟩ := findLoop_eq_some_iff.mp hfind
  obtain ⟨hg, hbeside⟩ := h hsize s hfind fun h => absurd h h0
  exact ⟨k, firstMatch_of_same hfirst ((hbeside k hfirst).sameWay_last hg h0 hlast)⟩

end Beside

end Sylphia
