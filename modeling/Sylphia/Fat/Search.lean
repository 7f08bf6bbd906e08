import Mathlib.Data.Finset.Card
import Mathlib.Data.Finset.Range
import Mathlib.Data.List.TakeWhile
import Sylphia.Fat.Writes

/-!
# Searches

The loops of the driver over directories and chains, on a sound volume.
-/

namespace Sylphia

open Bytes WriteLog Chain FAT32Driver

section Slots

variable {fs : FAT32Driver} {V : View} {c i n : Nat} {cs : List Nat} {name : List Byte}
  {ss ts : List Slot} {s : Slot}

theorem slots_cons (fs : FAT32Driver) (c : Nat) (cs : List Nat) :
    fs.slots (c :: cs) = (List.range' 0 fs.slotsPerCluster).map (Slot.mk c) ++ fs.slots cs := by
  rw [slots, slots, List.flatMap_cons, List.range_eq_range']

private theorem live_append_of_zero (h : ∃ t ∈ ss, (V.entry t).first = 0) :
    V.live (ss ++ ts) = V.live ss := by
  induction ss with
  | nil => simp at h
  | cons x ss ih =>
    rw [List.cons_append, View.live, View.live]
    split
    · rfl
    · next h0 =>
      obtain ⟨t, ht, ht0⟩ := h
      have hrest : t ∈ ss := by
        rcases List.mem_cons.mp ht with rfl | ht
        · exact absurd ht0 h0
        · exact ht
      rw [ih ⟨t, hrest, ht0⟩]

theorem find_append_of_zero (h : ∃ t ∈ ss, (V.entry t).first = 0) :
    V.find name (ss ++ ts) = V.find name ss := by
  rw [View.find, View.find, live_append_of_zero h]

theorem find_append (h : ∀ t ∈ ss, (V.entry t).first ≠ 0) :
    V.find name (ss ++ ts) = (V.find name ss).or (V.find name ts) := by
  rw [View.find, live_append h, List.find?_append]
  rfl

/-- What a search finds in the first part it finds in all. -/
theorem find_append_of_some (h : V.find name ss = some s) : V.find name (ss ++ ts) = some s := by
  by_cases h0 : ∃ t ∈ ss, (V.entry t).first = 0
  · rw [find_append_of_zero h0, h]
  · simp only [not_exists, not_and] at h0
    rw [find_append h0, h, Option.some_or]

/-- The loop over the slots of a cluster. -/
private theorem scanSlots_eq {buf : Buffer}
    (hbuf : ∀ j, dirEntry buf j = V.entry ⟨c, j⟩ ∨ i + n ≤ j) :
    match scanSlots buf name n i with
    | .found j => V.find name ((List.range' i n).map (Slot.mk c)) = some ⟨c, j⟩
    | .ended => V.find name ((List.range' i n).map (Slot.mk c)) = none ∧
        ∃ t ∈ (List.range' i n).map (Slot.mk c), (V.entry t).first = 0
    | .exhausted => V.find name ((List.range' i n).map (Slot.mk c)) = none ∧
        ∀ t ∈ (List.range' i n).map (Slot.mk c), (V.entry t).first ≠ 0 := by
  induction n generalizing i with
  | zero =>
    rw [scanSlots]
    exact ⟨rfl, by simp⟩
  | succ n ih =>
    have he : dirEntry buf i = V.entry ⟨c, i⟩ := (hbuf i).resolve_right (by omega)
    have hrest := ih (i := i + 1) fun j => (hbuf j).imp_right fun h => by omega
    rw [List.range'_succ, List.map_cons, scanSlots, he]
    by_cases h0 : (V.entry ⟨c, i⟩).first = 0
    · rw [if_pos h0]
      refine ⟨?_, ⟨c, i⟩, List.mem_cons_self .., h0⟩
      rw [View.find, View.live, if_pos h0]
      rfl
    · rw [if_neg h0]
      have hskip (hs : V.find name (⟨c, i⟩ :: (List.range' (i + 1) n).map (Slot.mk c)) =
          V.find name ((List.range' (i + 1) n).map (Slot.mk c))) :
          match scanSlots buf name n (i + 1) with
          | .found j => V.find name (⟨c, i⟩ :: (List.range' (i + 1) n).map (Slot.mk c)) =
            some ⟨c, j⟩
          | .ended => V.find name (⟨c, i⟩ :: (List.range' (i + 1) n).map (Slot.mk c)) = none ∧
              ∃ t ∈ (⟨c, i⟩ : Slot) :: (List.range' (i + 1) n).map (Slot.mk c),
                (V.entry t).first = 0
          | .exhausted => V.find name (⟨c, i⟩ :: (List.range' (i + 1) n).map (Slot.mk c)) = none ∧
              ∀ t ∈ (⟨c, i⟩ : Slot) :: (List.range' (i + 1) n).map (Slot.mk c),
                (V.entry t).first ≠ 0 := by
        rw [hs]
        split at hrest
        · exact hrest
        · obtain ⟨hnone, t, ht, ht0⟩ := hrest
          exact ⟨hnone, t, List.mem_cons_of_mem _ ht, ht0⟩
        · exact ⟨hrest.1, List.forall_mem_cons.mpr ⟨h0, hrest.2⟩⟩
      by_cases hlive : (V.entry ⟨c, i⟩).isLive = true
      · have hparts := hlive
        rw [DirectoryEntry.isLive, Bool.and_eq_true, Bool.and_eq_true, bne_iff_ne, bne_iff_ne,
          bne_iff_ne] at hparts
        rw [if_neg hparts.1.2, if_neg hparts.2]
        by_cases hname : isNameEqual (V.entry ⟨c, i⟩).name name = true
        · rw [if_pos hname]
          show V.find name _ = _
          rw [View.find, View.live, if_neg h0, if_pos hlive, List.find?_cons, hname]
        · rw [if_neg hname]
          refine hskip ?_
          rw [View.find, View.live, if_neg h0, if_pos hlive, List.find?_cons,
            Bool.eq_false_iff.mpr hname]
          rfl
      · have hsame : V.find name (⟨c, i⟩ :: (List.range' (i + 1) n).map (Slot.mk c)) =
            V.find name ((List.range' (i + 1) n).map (Slot.mk c)) := by
          rw [View.find, View.live, if_neg h0, if_neg hlive]
          rfl
        by_cases hne : (V.entry ⟨c, i⟩).first = 0xE5#8
        · rw [if_pos hne]
          exact hskip hsame
        · rw [if_neg hne]
          by_cases hattr : (V.entry ⟨c, i⟩).attr = 0x0F#8
          · rw [if_pos hattr]
            exact hskip hsame
          · refine absurd ?_ hlive
            rw [DirectoryEntry.isLive, Bool.and_eq_true, Bool.and_eq_true, bne_iff_ne, bne_iff_ne,
              bne_iff_ne]
            exact ⟨⟨h0, hne⟩, hattr⟩

end Slots

section Loops

variable {fs : FAT32Driver} {dev : BlockDevice} {d c n : Nat} {ds : List Nat} {name : List Byte}

theorem ClusterChain.lt {V : View} (h : ClusterChain fs V d ds) {x : Nat} (hx : x ∈ ds) :
    2 ≤ x ∧ x < fs.fatSz32 * 128 ∧ x < endOfChain ∧ x < 2 ^ 32 := by
  obtain ⟨h2, hfat, hend⟩ := h.valid hx
  exact ⟨h2, hfat, hend, lt_trans hend (by decide)⟩

/-- The entries in the buffer of a cluster. -/
theorem dirEntry_read (dev : BlockDevice) (h2 : 2 ≤ c) (h32 : c < 2 ^ 32) {j : Nat}
    (hj : j < fs.slotsPerCluster) :
    dirEntry (BlockDevice.read dev (fs.clusterToLBA c)) j = (fs.view dev.store).entry ⟨c, j⟩ := by
  refine slice_congr fun k hk => read_cluster dev h2 h32 ?_
  rw [slotsPerCluster] at hj
  rw [clusterBytes]
  omega

private theorem scan_cluster (h2 : 2 ≤ c) (h32 : c < 2 ^ 32) :
    match scanSlots (BlockDevice.read dev (fs.clusterToLBA c)) name fs.slotsPerCluster 0 with
    | .found j => (fs.view dev.store).find name
        ((List.range' 0 fs.slotsPerCluster).map (Slot.mk c)) = some ⟨c, j⟩
    | .ended => (fs.view dev.store).find name
          ((List.range' 0 fs.slotsPerCluster).map (Slot.mk c)) = none ∧
        ∃ t ∈ (List.range' 0 fs.slotsPerCluster).map (Slot.mk c),
          ((fs.view dev.store).entry t).first = 0
    | .exhausted => (fs.view dev.store).find name
          ((List.range' 0 fs.slotsPerCluster).map (Slot.mk c)) = none ∧
        ∀ t ∈ (List.range' 0 fs.slotsPerCluster).map (Slot.mk c),
          ((fs.view dev.store).entry t).first ≠ 0 := by
  refine scanSlots_eq fun j => ?_
  rcases Nat.lt_or_ge j fs.slotsPerCluster with hj | hj
  · exact Or.inl (dirEntry_read dev h2 h32 hj)
  · exact Or.inr (by omega)

/-- `FindDirectoryEntry` searches the first clusters of a directory. -/
theorem findLoop_eq (hc : ClusterChain fs (fs.view dev.store) d ds) (n : Nat) :
    fs.findLoop dev name n d = (fs.view dev.store).find name (fs.slots (ds.take n)) := by
  induction hc generalizing n with
  | @last c hv hends =>
    cases n with
    | zero => rfl
    | succ n =>
      have hscan := @scan_cluster fs dev c name hv.1 (lt_trans hv.2.2 (by decide))
      rw [findLoop, if_pos ⟨hv.2.2, hv.1⟩, List.take_succ_cons, List.take_nil, slots_cons]
      have hnil : fs.slots [] = [] := rfl
      rw [hnil, List.append_nil]
      split at hscan <;> simp only [*]
      -- Behind the end mark there is no cluster.
      rw [getNextCluster_eq dev hv.2.1]
      have hend : ¬(fs.view dev.store).fat c % 2 ^ 28 < endOfChain := Nat.not_lt.mpr hends
      cases n with
      | zero => rfl
      | succ n => rw [findLoop, if_neg fun h => hend h.1]
  | @cons c cs hv hrest ih =>
    cases n with
    | zero => rfl
    | succ n =>
      have hscan := @scan_cluster fs dev c name hv.1 (lt_trans hv.2.2 (by decide))
      rw [findLoop, if_pos ⟨hv.2.2, hv.1⟩, List.take_succ_cons, slots_cons]
      cases hj : scanSlots (BlockDevice.read dev (fs.clusterToLBA c)) name fs.slotsPerCluster 0 with
      | found j =>
        rw [hj] at hscan
        exact (find_append_of_some hscan).symm
      | ended =>
        rw [hj] at hscan
        exact ((find_append_of_zero hscan.2).trans hscan.1).symm
      | exhausted =>
        rw [hj] at hscan
        dsimp only
        rw [find_append hscan.2, hscan.1, Option.none_or, getNextCluster_eq dev hv.2.1]
        exact ih n

/-- Fewer clusters are on a chain than a loop may have rounds. -/
theorem ClusterChain.length_lt {V : View} (h : ClusterChain fs V d ds) : ds.length < loopBound := by
  have hsub : ds.toFinset ⊆ Finset.range (2 ^ 28) := by
    intro x hx
    have hlt := (h.lt (List.mem_toFinset.mp hx)).2.2.1
    exact Finset.mem_range.mpr (lt_trans hlt (by decide))
  have hcard := Finset.card_le_card hsub
  rw [List.toFinset_card_of_nodup h.nodup, Finset.card_range] at hcard
  exact Nat.lt_succ_of_le hcard

private theorem find_of_zero {V : View} {ss : List Slot} (h : ∀ t ∈ ss, (V.entry t).first = 0) :
    V.find name ss = none := by
  rw [View.find, live_of_zero h, List.find?_nil]

/-- The search of `DeleteFile` and `AppendFile` goes through the whole directory. -/
theorem searchLoop_eq (hc : ClusterChain fs (fs.view dev.store) d ds)
    (hended : (fs.view dev.store).Ended (fs.slots ds)) (hn : ds.length < n) :
    fs.searchLoop dev name n d = some ((fs.view dev.store).find name (fs.slots ds)) := by
  induction hc generalizing n with
  | @last c hv hends =>
    obtain ⟨n, rfl⟩ : ∃ m, n = m + 2 := ⟨n - 2, by simp at hn; omega⟩
    have hscan := @scan_cluster fs dev c name hv.1 (lt_trans hv.2.2 (by decide))
    have hend : ¬fs.getNextCluster dev c < endOfChain := by
      rw [getNextCluster_eq dev hv.2.1]
      exact Nat.not_lt.mpr hends
    have hnil : fs.slots [] = [] := rfl
    rw [searchLoop, if_pos hv.2.2, slots_cons, hnil, List.append_nil]
    split at hscan
    · next j hj => rw [hj, hscan]
    · next hj => rw [hj, hscan.1, searchLoop, if_neg hend]
    · next hj => rw [hj, hscan.1, searchLoop, if_neg hend]
  | @cons c cs hv hrest ih =>
    obtain ⟨n, rfl⟩ : ∃ m, n = m + 1 := ⟨n - 1, by simp at hn; omega⟩
    have hscan := @scan_cluster fs dev c name hv.1 (lt_trans hv.2.2 (by decide))
    rw [slots_cons] at hended ⊢
    obtain ⟨-, hended', hcross⟩ := List.pairwise_append.mp hended
    have hnext := ih hended' (by simpa using hn)
    rw [searchLoop, if_pos hv.2.2]
    rw [View.next, ← getNextCluster_eq dev hv.2.1] at hnext
    split at hscan
    · next j hj => rw [hj, find_append_of_some hscan]
    · next hj =>
      obtain ⟨hnone, t, ht, ht0⟩ := hscan
      rw [hj, find_append_of_zero ⟨t, ht, ht0⟩, hnone]
      dsimp only
      rw [hnext, find_of_zero fun u hu => hcross t ht u hu ht0]
    · next hj =>
      rw [hj, find_append hscan.2, hscan.1, Option.none_or]
      exact hnext

/-- The last cluster of a chain. -/
theorem lastLoop_eq {l : Nat} (hc : ClusterChain fs (fs.view dev.store) d (ds ++ [l]))
    (hn : ds.length < n) : fs.lastLoop dev n d = some l := by
  induction ds generalizing d n with
  | nil =>
    obtain ⟨n, rfl⟩ : ∃ m, n = m + 1 := ⟨n - 1, by simp at hn; omega⟩
    cases hc with
    | last hv hends =>
      have hends' : (fs.view dev.store).fat l % 2 ^ 28 ≥ endOfChain := hends
      rw [lastLoop, getNextCluster_eq dev hv.2.1, if_pos hends']
    | cons _ hrest => cases hrest
  | cons c cs ih =>
    obtain ⟨n, rfl⟩ : ∃ m, n = m + 1 := ⟨n - 1, by simp at hn; omega⟩
    obtain ⟨rfl, hv, hrest⟩ := IsChain.of_cons hc (by simp)
    have hnext : ¬fs.getNextCluster dev d ≥ endOfChain := by
      rw [getNextCluster_eq dev hv.2.1]
      exact Nat.not_le.mpr hrest.valid_head.2.2
    rw [lastLoop, if_neg hnext, getNextCluster_eq dev hv.2.1]
    exact ih hrest (by simpa using hn)

end Loops

section FreeSlots

variable {fs : FAT32Driver} {dev : BlockDevice} {c n : Nat} {e : DirectoryEntry}

/-- An entry that was never used, or that is deleted. -/
def DirectoryEntry.isFree (e : DirectoryEntry) : Bool := e.first == 0 || e.first == 0xE5#8

theorem isLive_of_isFree (h : e.isFree = true) : e.isLive = false := by
  rw [DirectoryEntry.isFree, Bool.or_eq_true, beq_iff_eq, beq_iff_eq] at h
  rcases h with h | h <;> simp [DirectoryEntry.isLive, h]

theorem first_of_not_isFree (h : e.isFree = false) : e.first ≠ 0 := by
  rw [DirectoryEntry.isFree, Bool.or_eq_false_iff, beq_eq_false_iff_ne] at h
  exact h.1

private theorem read_sector (dev : BlockDevice) (lba m k : Nat) :
    BlockDevice.read dev lba (m * 512 + k) = BlockDevice.read dev (lba + m) k := by
  have hdiv : (m * 512 + k) / 512 = m + k / 512 := by omega
  have hmod : (m * 512 + k) % 512 = k % 512 := by omega
  rw [BlockDevice.read, BlockDevice.read, hdiv, hmod, Nat.add_assoc]

/-- The sector that `AddDirectoryEntry` writes is that of a slot of the cluster. -/
private theorem writeSlot_sector (fs : FAT32Driver) (dev : BlockDevice) (c m i : Nat) (hi : i < 16)
    (e : DirectoryEntry) :
    BlockDevice.writeSectors dev (fs.clusterToLBA c + m)
        (splice (BlockDevice.read dev (fs.clusterToLBA c + m)) (32 * i) e) 1 =
      fs.writeSlot dev (BlockDevice.read dev (fs.clusterToLBA c)) ⟨c, 16 * m + i⟩ e := by
  have hsec : (16 * m + i) / 16 = m := by omega
  rw [writeSlot, writeSectors_one, writeSectors_one, hsec]
  congr 1
  funext k
  have hiff : 32 * (16 * m + i) ≤ m * 512 + (0 * 512 + k) ↔ 32 * i ≤ 0 * 512 + k := by omega
  have hsub : m * 512 + (0 * 512 + k) - 32 * (16 * m + i) = 0 * 512 + k - 32 * i := by omega
  rw [splice, splice, hsub, read_sector dev (fs.clusterToLBA c) m]
  simp only [hiff]

/-- The loop of `AddDirectoryEntry`, after the first `m` sectors. -/
private theorem addEntryLoop_eq (h2 : 2 ≤ c) (h32 : c < 2 ^ 32) {m : Nat}
    (hm : m + n = fs.secPerClus)
    (hbefore : ∀ j < 16 * m, ((fs.view dev.store).entry ⟨c, j⟩).isFree = false) :
    (addEntryLoop dev e n (fs.clusterToLBA c + m) = dev ∧
      ∀ j < fs.slotsPerCluster, ((fs.view dev.store).entry ⟨c, j⟩).isFree = false) ∨
    ∃ i < fs.slotsPerCluster, ((fs.view dev.store).entry ⟨c, i⟩).isFree = true ∧
      (∀ j < i, ((fs.view dev.store).entry ⟨c, j⟩).isFree = false) ∧
      addEntryLoop dev e n (fs.clusterToLBA c + m) =
        fs.writeSlot dev (BlockDevice.read dev (fs.clusterToLBA c)) ⟨c, i⟩ e := by
  have hslots : fs.slotsPerCluster = 16 * fs.secPerClus := by
    rw [slotsPerCluster]
    omega
  induction n generalizing m with
  | zero => exact Or.inl ⟨rfl, fun j hj => hbefore j (by omega)⟩
  | succ n ih =>
    have hfree {i : Nat} (hi : i < 16) :
        isFreeSlot (BlockDevice.read dev (fs.clusterToLBA c + m)) i =
        ((fs.view dev.store).entry ⟨c, 16 * m + i⟩).isFree := by
      rw [isFreeSlot, DirectoryEntry.isFree, ← dirEntry_read dev h2 h32 (by omega)]
      have hentry : dirEntry (BlockDevice.read dev (fs.clusterToLBA c + m)) i =
          dirEntry (BlockDevice.read dev (fs.clusterToLBA c)) (16 * m + i) := by
        rw [dirEntry, dirEntry, slice, slice]
        refine List.map_congr_left fun k _ => ?_
        rw [← read_sector]
        congr 1
        omega
      rw [hentry]
    rw [addEntryLoop]
    cases hf : (List.range 16).find?
        (isFreeSlot (BlockDevice.read dev (fs.clusterToLBA c + m))) with
    | none =>
      rw [List.find?_eq_none] at hf
      dsimp only
      rw [Nat.add_assoc]
      refine ih (by omega) fun j hj => ?_
      rcases Nat.lt_or_ge j (16 * m) with hlt | hge
      · exact hbefore j hlt
      · have hnot := hf (j - 16 * m) (List.mem_range.mpr (by omega))
        rw [hfree (by omega), Bool.not_eq_true] at hnot
        rwa [show 16 * m + (j - 16 * m) = j by omega] at hnot
    | some i =>
      rw [List.find?_range_eq_some] at hf
      obtain ⟨hp, hi, hfirst⟩ := hf
      rw [List.mem_range] at hi
      rw [hfree hi] at hp
      refine Or.inr ⟨16 * m + i, by omega, hp, fun j hj => ?_, writeSlot_sector fs dev c m i hi e⟩
      rcases Nat.lt_or_ge j (16 * m) with hlt | hge
      · exact hbefore j hlt
      · have hnot := hfirst (j - 16 * m) (by omega)
        rw [hfree (by omega), Bool.not_eq_true'] at hnot
        rwa [show 16 * m + (j - 16 * m) = j by omega] at hnot

/-- `AddDirectoryEntry` writes to the first free slot of the directory's first cluster, or
not at all. -/
theorem addDirectoryEntry_eq {name : List Byte} {startCluster size parentCluster : Nat}
    {attr : Byte}
    (hc : fs.directoryOf parentCluster = c) (h2 : 2 ≤ c) (h32 : c < 2 ^ 32) :
    (fs.addDirectoryEntry dev name startCluster size attr parentCluster = dev ∧
      ∀ j < fs.slotsPerCluster, ((fs.view dev.store).entry ⟨c, j⟩).isFree = false) ∨
    ∃ i < fs.slotsPerCluster, ((fs.view dev.store).entry ⟨c, i⟩).isFree = true ∧
      (∀ j < i, ((fs.view dev.store).entry ⟨c, j⟩).isFree = false) ∧
      fs.addDirectoryEntry dev name startCluster size attr parentCluster =
        fs.writeSlot dev (BlockDevice.read dev (fs.clusterToLBA c)) ⟨c, i⟩
          (.create name startCluster size attr) := by
  have hloop := @addEntryLoop_eq fs dev c fs.secPerClus (.create name startCluster size attr)
    h2 h32 0 (Nat.zero_add _) fun j hj => absurd hj (by omega)
  rw [Nat.add_zero] at hloop
  rw [addDirectoryEntry, hc]
  exact hloop

end FreeSlots

/-! ## Paths -/

section Paths

variable {fs : FAT32Driver} {dev dev' : BlockDevice} {T : Option Slot} {s : Slot} {c d n : Nat}
  {cs ds : List Nat} {name path : List Byte}

theorem directoryOf_of_chain {V : View} (hc : ClusterChain fs V d ds) : fs.directoryOf d = d :=
  if_neg fun h0 => absurd (h0 ▸ hc.valid_head.1) (by decide)

theorem directoryOf_directoryOf (d : Nat) :
    fs.directoryOf (fs.directoryOf d) = fs.directoryOf d := by
  rw [directoryOf, directoryOf]
  split_ifs <;> rfl

/-- A directory that is looked for under 0 is the root directory. -/
theorem findSlot_directoryOf (name : List Byte) :
    fs.findSlot dev name (fs.directoryOf d) = fs.findSlot dev name d := by
  rw [findSlot, findSlot, directoryOf_directoryOf]

theorem findSlot_eq (hc : ClusterChain fs (fs.view dev.store) d ds) :
    fs.findSlot dev name d = (fs.view dev.store).find name (fs.slots (ds.take 10001)) := by
  rw [findSlot, directoryOf_of_chain hc, findLoop_eq hc]

/-- A path that is one name. -/
structure OneSegment (path : List Byte) : Prop where
  nonempty : path ≠ []
  slash : 0x2F#8 ∉ path
  length : path.length ≤ 15

/-- `GetFileEntry` of a path that is one name is one search. -/
theorem OneSegment.resolve (h : OneSegment path) (dev : BlockDevice) (d : Nat) :
    fs.resolve dev path d = fs.findSlot dev path d := by
  have hhead : path.head? ≠ some 0x2F#8 := fun hhead => h.slash (List.mem_of_head? hhead)
  have hwhole : (path.takeWhile (· ≠ 0x2F#8)).take 15 = path := by
    have hall : path.takeWhile (· ≠ 0x2F#8) = path := by
      rw [List.takeWhile_eq_self_iff]
      intro b hb
      rw [decide_eq_true_eq]
      rintro rfl
      exact h.slash hb
    rw [hall, List.take_of_length_le h.length]
  obtain ⟨n, hn⟩ := Nat.exists_eq_succ_of_ne_zero (mt List.length_eq_zero_iff.mp h.nonempty)
  rw [FAT32Driver.resolve, if_neg hhead, hn, resolveLoop, if_neg h.nonempty, hwhole]
  dsimp only
  rw [List.drop_length, findSlot_directoryOf]
  cases fs.findSlot dev path d with
  | none => rfl
  | some s => exact if_pos rfl

theorem slotEntry_eq (hc : ClusterChain fs (fs.view dev.store) d ds) (hs : s ∈ fs.slots ds) :
    fs.slotEntry dev s = (fs.view dev.store).entry s := by
  obtain ⟨hmem, hi⟩ := mem_slots.mp hs
  obtain ⟨h2, -, -, h32⟩ := ClusterChain.lt hc hmem
  exact dirEntry_read dev h2 h32 hi

/-- A slot that a search finds in a directory is listed. -/
theorem listed_of_find {V : View} (hd : IsDirectory fs V d) (hc : ClusterChain fs V d ds)
    (hs : V.find name (fs.slots (ds.take n)) = some s) :
    Listed fs V s ∧ s ∈ V.live (fs.slots ds) := by
  have hlive : s ∈ V.live (fs.slots ds) := by
    rw [slots_take fs ds n]
    exact live_mono V _ _ s (mem_of_find hs)
  exact ⟨⟨d, ds, hd, hc, hlive, isDot_of_isNameEqual (name_of_find hs)⟩, hlive⟩

/-- A path that does not lead to the target leads where it did. -/
private theorem resolveLoop_kept (hv : SoundVolume fs (fs.view dev.store))
    (hk : Kept fs T (fs.view dev.store) (fs.view dev'.store))
    (hT : ∀ t, T = some t → ((fs.view dev.store).entry t).isDirectory = false)
    (hd : IsDirectory fs (fs.view dev.store) d)
    (hr : fs.resolveLoop dev n path d = some s) (hs : T ≠ some s) :
    fs.resolveLoop dev' n path d = some s ∧ fs.slotEntry dev' s = fs.slotEntry dev s ∧
      fs.slotEntry dev s = (fs.view dev.store).entry s ∧ Listed fs (fs.view dev.store) s := by
  induction n generalizing path d with
  | zero => cases hr
  | succ n ih =>
    rw [resolveLoop] at hr ⊢
    obtain ⟨ds, hc⟩ := hv.directory_chain hd
    obtain ⟨hd', hc'⟩ := hk.dirs d ds hd hc
    split at hr
    · cases hr
    · next hp =>
      rw [if_neg hp]
      dsimp only at hr ⊢
      split at hr
      · cases hr
      · next t ht =>
        rw [findSlot_eq hc] at ht
        obtain ⟨hlist, hlive⟩ := listed_of_find hd hc ht
        have hslot := live_subset _ _ t hlive
        have hentry := slotEntry_eq hc hslot
        have hstep (hTt : T ≠ some t) :
            fs.findSlot dev' ((path.takeWhile (· ≠ 0x2F#8)).take 15) d = some t ∧
              fs.slotEntry dev' t = fs.slotEntry dev t := by
          obtain ⟨hfind, he⟩ := hk.find d ds hd hc _ _ t ht hTt
          rw [findSlot_eq hc', slotEntry_eq hc' hslot, hentry]
          exact ⟨hfind, he⟩
        split at hr
        · next hrest =>
          obtain rfl := Option.some.inj hr
          obtain ⟨hfind, he⟩ := hstep hs
          rw [hfind]
          dsimp only
          rw [if_pos hrest]
          exact ⟨rfl, he, hentry, hlist⟩
        · next hrest =>
          split at hr
          · cases hr
          · next hdir =>
            rw [Bool.not_eq_true', Bool.not_eq_false] at hdir
            have hTt : T ≠ some t := by
              intro ht'
              rw [hentry, hT t ht'] at hdir
              cases hdir
            obtain ⟨hfind, he⟩ := hstep hTt
            rw [hfind]
            dsimp only
            rw [if_neg hrest, he, hdir, if_neg (by simp)]
            refine ih ?_ hr
            rw [directoryOf]
            split
            · exact .root
            · next h0 =>
              rw [hentry] at hdir h0 ⊢
              exact .sub hd hc hlive hdir (isDot_of_isNameEqual (name_of_find ht)) h0

/-- `GetFileEntry` gives the entry it gave, unless that is the target. -/
theorem resolve_kept (hv : SoundVolume fs (fs.view dev.store))
    (hk : Kept fs T (fs.view dev.store) (fs.view dev'.store))
    (hT : ∀ t, T = some t → ((fs.view dev.store).entry t).isDirectory = false) {base : Nat}
    (hbase : IsDirectory fs (fs.view dev.store) (fs.directoryOf base))
    (hr : fs.resolve dev path base = some s) (hs : T ≠ some s) :
    fs.resolve dev' path base = some s ∧ fs.slotEntry dev' s = fs.slotEntry dev s ∧
      fs.slotEntry dev s = (fs.view dev.store).entry s ∧ Listed fs (fs.view dev.store) s := by
  rw [resolve] at hr ⊢
  split at hr
  · next h =>
    rw [if_pos h]
    exact resolveLoop_kept hv hk hT .root hr hs
  · next h =>
    rw [if_neg h]
    exact resolveLoop_kept hv hk hT hbase hr hs

/-- The clusters of a file are read. -/
theorem readLoop_congr (hc : ClusterChain fs (fs.view dev.store) c cs)
    (hc' : ClusterChain fs (fs.view dev'.store) c cs)
    (hdata : ∀ x ∈ cs, (fs.view dev'.store).data x = (fs.view dev.store).data x) (remaining : Nat) :
    fs.readLoop dev' n remaining c = fs.readLoop dev n remaining c := by
  induction n generalizing c cs remaining with
  | zero => rfl
  | succ n ih =>
    rw [readLoop, readLoop]
    split
    · obtain ⟨h2, hfat, -, h32⟩ := ClusterChain.lt hc hc.head_mem
      have hsame (len : Nat) (hlen : len ≤ fs.clusterBytes) :
          slice (BlockDevice.read dev' (fs.clusterToLBA c)) 0 len =
            slice (BlockDevice.read dev (fs.clusterToLBA c)) 0 len := by
        refine slice_congr fun k hk => ?_
        rw [read_cluster dev' h2 h32 (by omega), read_cluster dev h2 h32 (by omega),
          hdata c hc.head_mem]
      dsimp only
      rw [hsame _ (by split <;> omega), getNextCluster_eq dev' hfat, getNextCluster_eq dev hfat]
      congr 1
      cases hc with
      | last _ hends =>
        -- Both loops stop at the end mark.
        have hends' : (fs.view dev'.store).fat c % 2 ^ 28 ≥ endOfChain := by
          cases hc' with
          | last _ hends' => exact hends'
          | cons _ hrest => cases hrest
        have hends : (fs.view dev.store).fat c % 2 ^ 28 ≥ endOfChain := hends
        cases n with
        | zero => rfl
        | succ n =>
          rw [readLoop, readLoop, if_neg fun h => absurd h.2 (Nat.not_lt.mpr hends'),
            if_neg fun h => absurd h.2 (Nat.not_lt.mpr hends)]
      | @cons _ cs _ hrest =>
        obtain ⟨-, -, hrest'⟩ := IsChain.of_cons hc' (List.ne_nil_of_mem hrest.head_mem)
        have hhead : (fs.view dev'.store).next c = (fs.view dev.store).next c :=
          Option.some.inj (hrest'.head?_eq.symm.trans hrest.head?_eq)
        rw [hhead] at hrest'
        rw [← View.next, ← View.next, hhead]
        exact ih hrest hrest' (fun x hx => hdata x (List.mem_cons_of_mem _ hx)) _
    · rfl

/-- `ReadFile` delivers what it did, unless it is for the target. -/
theorem readFile_kept (hv : SoundVolume fs (fs.view dev.store))
    (hk : Kept fs T (fs.view dev.store) (fs.view dev'.store))
    (hT : ∀ t, T = some t → ((fs.view dev.store).entry t).isDirectory = false) {base size : Nat}
    (hbase : IsDirectory fs (fs.view dev.store) (fs.directoryOf base))
    (hr : fs.resolve dev path base = some s) (hs : T ≠ some s)
    (hfile : (fs.slotEntry dev s).isDirectory = false ∨ (fs.slotEntry dev s).fileSize = 0) :
    fs.readFile dev' path size base = fs.readFile dev path size base := by
  obtain ⟨hr', he, hentry, hlist⟩ := resolve_kept hv hk hT hbase hr hs
  rw [readFile, readFile, getFileEntry, getFileEntry, hr, hr', Option.map_some, Option.map_some, he]
  dsimp only
  split
  · rfl
  · congr 1
    by_cases h0 : (fs.slotEntry dev s).fileSize = 0
    · rw [h0]
      rfl
    · have hfile := hfile.resolve_right h0
      rw [hentry] at hfile h0 ⊢
      have hfirst := hv.sized s hlist hfile (Nat.pos_of_ne_zero h0)
      obtain ⟨cs, hc⟩ := hv.chains (.slot s) _ ⟨hlist, rfl, hfirst⟩
      obtain ⟨-, -, hc', hdata⟩ := hk.files s cs hlist hs hfile hc
      exact readLoop_congr hc hc' hdata _

end Paths

end Sylphia
