import Mathlib.Data.DFinsupp.WellFounded
import Sylphia.Fat.Links

/-!
# Calls that do not come back

The loops of the driver follow links that the device holds. `FindDirectoryEntry` counts its
rounds; the others go on until there is an end mark or what they look for. The functions are
given a number of rounds for each of their loops here, and return if some number is enough.
-/

namespace Sylphia

open Bytes WriteLog LinkWalk

namespace FAT32Driver

/-- The loop of `FindDirectoryEntry`, with `loop_safety`. -/
def findRounds (fs : FAT32Driver) (dev : BlockDevice) (name : List Byte) :
    Nat → Nat → Nat → Option (Option Slot)
  | 0, _, _ => none
  | n + 1, safety, current =>
    if current < endOfChain ∧ current ≥ 2 then
      if safety > 10000 then some none
      else
        match scanSlots (BlockDevice.read dev (fs.clusterToLBA current))
          name fs.slotsPerCluster 0 with
        | .found i => some (some ⟨current, i⟩)
        | .ended => some none
        | .exhausted => findRounds fs dev name n (safety + 1) (fs.getNextCluster dev current)
    else some none

/-- `FindDirectoryEntry` within `n` rounds. -/
def findWithin (fs : FAT32Driver) (n : Nat) (dev : BlockDevice) (name : List Byte)
    (parentCluster : Nat) : Option (Option DirectoryEntry) :=
  (fs.findRounds dev name n 0 (fs.directoryOf parentCluster)).map (Option.map (fs.slotEntry dev))

/-- `ListDirectory` within `n` rounds. -/
def listWithin (fs : FAT32Driver) (n : Nat) (dev : BlockDevice) (cluster : Nat) :
    Option (List Output) :=
  (fs.listLoop dev n (fs.directoryOf cluster)).map
    ([.text "Type     Size       Name\n", .text "----     ----       ----\n"] ++ ·)

/-- `AppendFile` from the last cluster of the file on, within `n` rounds of each loop. -/
def appendFromWithin (fs : FAT32Driver) (n : Nat) (dev : BlockDevice) (name : List Byte)
    (data : Buffer) (size targetDir oldSize lastCluster firstCluster : Nat) : Option BlockDevice :=
  match fs.appendDataWithin n dev data size oldSize lastCluster with
  | none => none
  | some dev => fs.updateWithin n dev name targetDir oldSize size firstCluster

/-- `AppendFile` within `n` rounds of each loop. -/
def appendWithin (fs : FAT32Driver) (n : Nat) (dev : BlockDevice) (name : CString) (data : Buffer)
    (size parentCluster : Nat) : Option BlockDevice :=
  if size = 0 then some dev
  else
    let targetDir := fs.directoryOf parentCluster
    match fs.findWithin n dev name.chars targetDir with
    | none => none
    | some none => fs.writeWithin n dev name.eleven data size parentCluster
    | some (some entry) =>
      if entry.firstCluster = 0 then
        let (first, dev) := fs.allocateCluster dev
        if first = 0 then some dev
        else fs.appendFromWithin n dev name.chars data size targetDir entry.fileSize first first
      else
        match fs.lastLoop dev n entry.firstCluster with
        | none => none
        | some last => fs.appendFromWithin n dev name.chars data size targetDir entry.fileSize last
            entry.firstCluster

end FAT32Driver

open FAT32Driver

section Bounded

variable {fs : FAT32Driver} {dev : BlockDevice} {name : List Byte} {data : Buffer}
  {c n m safety remaining offset first prev size oldSize last parentCluster : Nat}

/-- `FindDirectoryEntry` needs no more rounds than it counts. -/
theorem findRounds_eq (hs : safety ≤ 10001) (hn : 10001 - safety < n) :
    fs.findRounds dev name n safety c = some (fs.findLoop dev name (10001 - safety) c) := by
  induction n generalizing safety c with
  | zero => exact absurd hn (Nat.not_lt_zero _)
  | succ n ih =>
    rw [findRounds]
    by_cases hsafety : safety > 10000
    · have hlast : 10001 - safety = 0 := by omega
      rw [hlast, findLoop, if_pos hsafety, ite_self]
    · obtain ⟨m, hm⟩ : ∃ m, 10001 - safety = m + 1 := ⟨10000 - safety, by omega⟩
      rw [hm, findLoop, if_neg hsafety]
      split
      · cases scanSlots (BlockDevice.read dev (fs.clusterToLBA c)) name fs.slotsPerCluster 0 with
        | found i => rfl
        | ended => rfl
        | exhausted =>
          have hrest := ih (c := fs.getNextCluster dev c) (by omega : safety + 1 ≤ 10001) (by omega)
          rwa [show 10001 - (safety + 1) = m by omega] at hrest
      · rfl

theorem findWithin_eq (hn : 10001 < n) :
    fs.findWithin n dev name parentCluster =
      some (fs.findDirectoryEntry dev name parentCluster) := by
  rw [findWithin, findRounds_eq (Nat.zero_le _) hn]
  rfl

/-- What is written in one round. -/
theorem len_pos (hsec : 1 ≤ fs.secPerClus) (hr : remaining ≠ 0) :
    0 < (if remaining > fs.clusterBytes then fs.clusterBytes else remaining) := by
  rw [clusterBytes]
  split <;> omega

theorem isSome_writeLoop (hsec : 1 ≤ fs.secPerClus) (hn : remaining < n) :
    (fs.writeLoop data n dev remaining offset first prev).isSome := by
  induction n generalizing dev remaining offset first prev with
  | zero => exact absurd hn (Nat.not_lt_zero _)
  | succ n ih =>
    rw [writeLoop]
    split
    · rfl
    · next hr =>
      have hlen := len_pos hsec hr
      dsimp only
      split
      · rfl
      · exact ih (by omega)

theorem isSome_appendLoop (hsec : 1 ≤ fs.secPerClus) (hn : remaining < n) :
    (fs.appendLoop data n dev remaining offset prev).isSome := by
  induction n generalizing dev remaining offset prev with
  | zero => exact absurd hn (Nat.not_lt_zero _)
  | succ n ih =>
    rw [appendLoop]
    split
    · rfl
    · next hr =>
      have hlen := len_pos hsec hr
      dsimp only
      split
      · rfl
      · exact ih (by omega)

theorem isSome_writeWithin (hsec : 1 ≤ fs.secPerClus) (hn : size < n) :
    (fs.writeWithin n dev name data size parentCluster).isSome := by
  rw [writeWithin]
  split
  · rfl
  · obtain ⟨r, hr⟩ := Option.isSome_iff_exists.mp
      (@isSome_writeLoop fs dev data n size 0 0 0 hsec hn)
    rw [hr]
    rcases r with ⟨_ | ⟨first, current⟩, dev'⟩ <;> rfl

theorem isSome_appendDataWithin (hsec : 1 ≤ fs.secPerClus) (hn : size < n) :
    (fs.appendDataWithin n dev data size oldSize last).isSome := by
  rw [appendDataWithin]
  dsimp only
  rw [Option.isSome_map]
  exact isSome_appendLoop hsec (lt_of_le_of_lt (Nat.sub_le _ _) hn)

theorem appendLoop_of_le {r : Nat × BlockDevice}
    (h : fs.appendLoop data n dev remaining offset prev = some r) (hle : n ≤ m) :
    fs.appendLoop data m dev remaining offset prev = some r := by
  induction n generalizing m dev remaining offset prev with
  | zero => cases h
  | succ n ih =>
    obtain ⟨m, rfl⟩ := Nat.exists_eq_succ_of_ne_zero (show m ≠ 0 by omega)
    rw [appendLoop] at h ⊢
    split at h
    · next hr => rwa [if_pos hr]
    · next hr =>
      rw [if_neg hr]
      dsimp only at h ⊢
      split at h
      · next h0 => rwa [if_pos h0]
      · next h0 =>
        rw [if_neg h0]
        exact ih h (Nat.le_of_succ_le_succ hle)

theorem appendDataWithin_of_le {dev' : BlockDevice}
    (h : fs.appendDataWithin n dev data size oldSize last = some dev') (hle : n ≤ m) :
    fs.appendDataWithin m dev data size oldSize last = some dev' := by
  rw [appendDataWithin] at h ⊢
  obtain ⟨r, hr, rfl⟩ := Option.map_eq_some_iff.mp h
  exact Option.map_eq_some_iff.mpr ⟨r, appendLoop_of_le hr hle, rfl⟩

/-- The rounds that the model gives to the data of an append are enough. -/
theorem appendDataWithin_eq (hsec : 1 ≤ fs.secPerClus) (hn : size < n) :
    fs.appendDataWithin n dev data size oldSize last =
      some (fs.appendData dev data size oldSize last) := by
  obtain ⟨dev', heq⟩ := Option.isSome_iff_exists.mp
    (@isSome_appendDataWithin fs dev data (size + 1) size oldSize last hsec (Nat.lt_succ_self size))
  rw [appendData, heq, Option.getD_some]
  exact appendDataWithin_of_le heq hn

theorem appendDataWithin_sound (hsec : 1 ≤ fs.secPerClus) {dev' : BlockDevice}
    (h : fs.appendDataWithin n dev data size oldSize last = some dev') :
    dev' = fs.appendData dev data size oldSize last := by
  have hlarge := appendDataWithin_of_le h (Nat.le_max_left n (size + 1))
  rw [appendDataWithin_eq hsec (Nat.lt_of_lt_of_le (Nat.lt_succ_self size) (Nat.le_max_right _ _))]
    at hlarge
  exact (Option.some.inj hlarge).symm

end Bounded

section FreeChain

variable {fs : FAT32Driver} {dev : BlockDevice} {c x n m : Nat}

/-- Clearing an entry leaves the other entries of its sector and those of the sectors before. -/
theorem getNextCluster_linkCluster (fs : FAT32Driver) (dev : BlockDevice) (hx : x / 128 ≤ c / 128) :
    fs.getNextCluster (fs.linkCluster dev c 0) x = if x = c then 0
      else fs.getNextCluster dev x := by
  have hstore : (fs.linkCluster dev c 0).store (fs.fatStartLba + x / 128) =
      if x / 128 = c / 128 then
        fun k => setFatEntry (BlockDevice.read dev (fs.fatStartLba + c / 128)) (c % 128) 0
          (0 * 512 + k)
      else dev.store (fs.fatStartLba + x / 128) := by
    rw [linkCluster, writeSectors_one, writeSectors_one]
    split
    · next heq =>
      rw [heq]
      by_cases h0 : fs.fatSz32 = 0
      · rw [h0, Nat.add_zero, Logged.write_store_self]
      · rw [Logged.write_store_of_ne _ (by omega), Logged.write_store_self]
    · rw [Logged.write_store_of_ne _ (by omega), Logged.write_store_of_ne _ (by omega)]
  have hmod : x % 128 < 128 := Nat.mod_lt _ (by decide)
  rw [getNextCluster, getNextCluster, fatEntry_read _ hmod, fatEntry_read _ hmod, hstore]
  split
  · next heq =>
    have hsector : fatEntry (fun k => setFatEntry (BlockDevice.read dev (fs.fatStartLba + c / 128))
        (c % 128) 0 (0 * 512 + k)) (x % 128) =
        fatEntry (setFatEntry (BlockDevice.read dev (fs.fatStartLba + c / 128)) (c % 128) 0)
          (x % 128) := fatEntry_congr hmod fun k _ => by rw [Nat.zero_mul, Nat.zero_add]
    rw [hsector]
    by_cases hxc : x = c
    · rw [if_pos hxc, hxc, fatEntry_setFatEntry_self]
      rfl
    · rw [if_neg hxc, fatEntry_setFatEntry_of_ne _ (by omega), fatEntry_read _ hmod, heq]
  · next hne =>
    have hxc : x ≠ c := fun hxc => hne (congrArg (· / 128) hxc)
    rw [if_neg hxc]

/-- Smaller in the first place that differs. -/
def LexLess {n : Nat} (x y : Fin n → Nat) : Prop := ∃ i, (∀ j < i, x j = y j) ∧ x i < y i

theorem wellFounded_lexLess (n : Nat) : WellFounded (@LexLess n) :=
  Pi.Lex.wellFounded (· < ·) fun _ => wellFounded_lt

/-- The links in each of the first `n` sectors of the FAT. -/
def FAT32Driver.linksInSector (fs : FAT32Driver) (dev : BlockDevice) (n : Nat) (i : Fin n) : Nat :=
  ((Finset.range 128).filter fun j => fs.getNextCluster dev (128 * i + j) ≠ 0).card

/-- The sector of a link that is cleared holds one link less, and no sector before it changes. -/
theorem linksInSector_cleared (hc : c / 128 < n) (hlink : fs.getNextCluster dev c ≠ 0) :
    LexLess (fs.linksInSector (fs.linkCluster dev c 0) n) (fs.linksInSector dev n) := by
  refine ⟨⟨c / 128, hc⟩, fun i hi => ?_, Finset.card_lt_card ⟨fun j hj => ?_, fun hsub => ?_⟩⟩
  · have hi : (i : Nat) < c / 128 := hi
    rw [linksInSector, linksInSector]
    congr 1
    refine Finset.filter_congr fun j hj => ?_
    have hj := Finset.mem_range.mp hj
    rw [getNextCluster_linkCluster fs dev (by omega), if_neg (by omega)]
  · rw [Finset.mem_filter, Finset.mem_range] at hj ⊢
    obtain ⟨hj, hne⟩ := hj
    rw [getNextCluster_linkCluster fs dev (by dsimp only; omega)] at hne
    split at hne
    · exact absurd rfl hne
    · exact ⟨hj, hne⟩
  · have hmem : c % 128 ∈ (Finset.range 128).filter fun j =>
        fs.getNextCluster dev (128 * (c / 128) + j) ≠ 0 := by
      rw [Finset.mem_filter, Nat.div_add_mod]
      exact ⟨Finset.mem_range.mpr (Nat.mod_lt _ (by decide)), hlink⟩
    have hleft := (Finset.mem_filter.mp (hsub hmem)).2
    rw [Nat.div_add_mod, getNextCluster_linkCluster fs dev le_rfl, if_pos rfl] at hleft
    exact hleft rfl

/-- `FreeChain` ends on every device, also where a write to the second FAT changes the first. -/
theorem freeChainLoop_ends (fs : FAT32Driver) (dev : BlockDevice) (c : Nat) :
    ∃ n dev', fs.freeChainLoop n dev c = some dev' := by
  induction hlinks : fs.linksInSector dev (endOfChain / 128 + 1)
    using (wellFounded_lexLess _).induction generalizing dev c with
  | h links ih =>
    subst hlinks
    by_cases hc : c ≥ 2 ∧ c < endOfChain
    · by_cases hnext : fs.getNextCluster dev c ≥ 2 ∧ fs.getNextCluster dev c < endOfChain
      · have hlink : fs.getNextCluster dev c ≠ 0 := fun h0 => absurd (h0 ▸ hnext.1) (by decide)
        have hsec : c / 128 < endOfChain / 128 + 1 :=
          Nat.lt_succ_of_le (Nat.div_le_div_right hc.2.le)
        obtain ⟨n, dev', heq⟩ := ih _ (linksInSector_cleared hsec hlink) (fs.linkCluster dev c 0)
          (fs.getNextCluster dev c) rfl
        exact ⟨n + 1, dev', by rw [freeChainLoop, if_pos hc, heq]⟩
      · refine ⟨2, fs.linkCluster dev c 0, ?_⟩
        rw [freeChainLoop, if_pos hc, freeChainLoop, if_neg hnext]
    · exact ⟨1, dev, by rw [freeChainLoop, if_neg hc]⟩

theorem freeChainLoop_of_le {dev' : BlockDevice} (h : fs.freeChainLoop n dev c = some dev')
    (hle : n ≤ m) : fs.freeChainLoop m dev c = some dev' := by
  induction n generalizing m dev c with
  | zero => cases h
  | succ n ih =>
    obtain ⟨m, rfl⟩ := Nat.exists_eq_succ_of_ne_zero (show m ≠ 0 by omega)
    rw [freeChainLoop] at h ⊢
    split at h
    · next hc =>
      rw [if_pos hc]
      exact ih h (Nat.le_of_succ_le_succ hle)
    · next hc => rwa [if_neg hc]

end FreeChain

/-! ## The functions -/

section Functions

variable {fs : FAT32Driver} {dev dev' : BlockDevice} {name : List Byte} {data : Buffer}
  {c d n m safety remaining offset prev size oldSize last parentCluster : Nat}

theorem findRounds_of_le {r : Option Slot} (h : fs.findRounds dev name n safety c = some r)
    (hle : n ≤ m) : fs.findRounds dev name m safety c = some r := by
  induction n generalizing m safety c with
  | zero => cases h
  | succ n ih =>
    obtain ⟨m, rfl⟩ := Nat.exists_eq_succ_of_ne_zero (show m ≠ 0 by omega)
    rw [findRounds] at h ⊢
    split at h
    · next hc =>
      rw [if_pos hc]
      split at h
      · next hs => rwa [if_pos hs]
      · next hs =>
        rw [if_neg hs]
        cases hscan : scanSlots (BlockDevice.read dev (fs.clusterToLBA c)) name
            fs.slotsPerCluster 0 with
        | found i => rwa [hscan] at h
        | ended => rwa [hscan] at h
        | exhausted =>
          rw [hscan] at h
          exact ih h (Nat.le_of_succ_le_succ hle)
    · next hc => rwa [if_neg hc]

theorem findWithin_sound {r : Option DirectoryEntry}
    (h : fs.findWithin n dev name parentCluster = some r) :
    r = fs.findDirectoryEntry dev name parentCluster := by
  obtain ⟨s, hs, rfl⟩ := Option.map_eq_some_iff.mp h
  have hlarge := findRounds_of_le hs (Nat.le_max_left n 10002)
  rw [findRounds_eq (Nat.zero_le _) (lt_of_lt_of_le (by decide) (Nat.le_max_right _ _))] at hlarge
  rw [findDirectoryEntry, findSlot, ← Option.some.inj hlarge]

/-- `DeleteFile` returns exactly when its search does. -/
theorem exists_deleteWithin_iff :
    (∃ n, (fs.deleteWithin n dev name parentCluster).isSome) ↔
      fs.SearchEnds dev name (fs.directoryOf parentCluster) := by
  rw [← exists_searchLoop_iff]
  constructor
  · rintro ⟨n, h⟩
    rw [deleteWithin] at h
    cases hs : fs.searchLoop dev name n (fs.directoryOf parentCluster) with
    | none =>
      rw [hs] at h
      cases h
    | some r => exact ⟨n, r, hs⟩
  · rintro ⟨n, r, hs⟩
    cases r with
    | none => exact ⟨n, by rw [deleteWithin, hs]; rfl⟩
    | some s =>
      obtain ⟨m, dev', hfree⟩ := freeChainLoop_ends fs dev
        (dirEntry (BlockDevice.read dev (fs.clusterToLBA s.cluster)) s.index).firstCluster
      refine ⟨max n m, ?_⟩
      rw [deleteWithin, searchLoop_of_le hs (Nat.le_max_left n m)]
      dsimp only
      rw [Option.isSome_map]
      split
      · rfl
      · rw [freeChainLoop_of_le hfree (Nat.le_max_right n m)]
        rfl

/-- The last part of `AppendFile` returns exactly when its search does, on the device with the data
written. -/
theorem exists_appendFromWithin_iff (hsec : 1 ≤ fs.secPerClus) {targetDir first : Nat} :
    (∃ n, (fs.appendFromWithin n dev name data size targetDir oldSize last first).isSome) ↔
      fs.SearchEnds (fs.appendData dev data size oldSize last) name targetDir := by
  rw [← exists_searchLoop_iff]
  constructor
  · rintro ⟨n, h⟩
    rw [appendFromWithin] at h
    split at h
    · cases h
    · next hd =>
      rw [appendDataWithin_sound hsec hd, updateWithin] at h
      split at h
      · cases h
      · next hs => exact ⟨n, none, hs⟩
      · next s hs => exact ⟨n, some s, hs⟩
  · rintro ⟨n, r, hs⟩
    refine ⟨max n (size + 1), ?_⟩
    rw [appendFromWithin,
      appendDataWithin_eq hsec (Nat.lt_of_lt_of_le (Nat.lt_succ_self size) (Nat.le_max_right _ _))]
    dsimp only
    rw [updateWithin, searchLoop_of_le hs (Nat.le_max_left n (size + 1))]
    cases r <;> rfl

theorem appendFromWithin_of_le {targetDir first : Nat}
    (h : (fs.appendFromWithin n dev name data size targetDir oldSize last first).isSome)
    (hle : n ≤ m) :
    (fs.appendFromWithin m dev name data size targetDir oldSize last first).isSome := by
  rw [appendFromWithin] at h ⊢
  split at h
  · cases h
  · next hd =>
    rw [appendDataWithin_of_le hd hle]
    dsimp only
    rw [updateWithin] at h ⊢
    split at h
    · cases h
    · next hs =>
      rw [searchLoop_of_le hs hle]
      rfl
    · next hs =>
      rw [searchLoop_of_le hs hle]
      rfl

end Functions

/-- Where the searches of `AppendFile` end: that for the last cluster of the file, if it has one,
and that for its entry, on the device with the data written. -/
def FAT32Driver.AppendEnds (fs : FAT32Driver) (dev : BlockDevice) (name : List Byte) (data : Buffer)
    (size targetDir : Nat) : Prop :=
  ∀ entry, fs.findDirectoryEntry dev name targetDir = some entry →
    if entry.firstCluster = 0 then
      (fs.allocateCluster dev).1 = 0 ∨
        fs.SearchEnds (fs.appendData (fs.allocateCluster dev).2 data size entry.fileSize
          (fs.allocateCluster dev).1) name targetDir
    else ∃ last, fs.IsLast dev entry.firstCluster last ∧
      fs.SearchEnds (fs.appendData dev data size entry.fileSize last) name targetDir

section Append

variable {fs : FAT32Driver} {dev : BlockDevice} {data : Buffer} {name : CString}
  {n size parentCluster : Nat} {entry : DirectoryEntry}

/-- `AppendFile` writes a new file. -/
theorem appendWithin_new (hsec : 1 ≤ fs.secPerClus) (hsize : size ≠ 0)
    (hfind : fs.findDirectoryEntry dev name.chars (fs.directoryOf parentCluster) = none) :
    ∃ n, (fs.appendWithin n dev name data size parentCluster).isSome := by
  refine ⟨size + 10002, ?_⟩
  rw [appendWithin, if_neg hsize]
  dsimp only
  rw [findWithin_eq (by omega), hfind]
  exact isSome_writeWithin hsec (by omega)

/-- `AppendFile` to an entry that is there. -/
theorem appendWithin_found (hsize : size ≠ 0)
    (hfind : fs.findWithin n dev name.chars (fs.directoryOf parentCluster) = some (some entry)) :
    fs.appendWithin n dev name data size parentCluster =
      if entry.firstCluster = 0 then
        if (fs.allocateCluster dev).1 = 0 then some (fs.allocateCluster dev).2
        else fs.appendFromWithin n (fs.allocateCluster dev).2 name.chars data size
          (fs.directoryOf parentCluster) entry.fileSize (fs.allocateCluster dev).1
          (fs.allocateCluster dev).1
      else
        match fs.lastLoop dev n entry.firstCluster with
        | none => none
        | some last => fs.appendFromWithin n dev name.chars data size (fs.directoryOf parentCluster)
            entry.fileSize last entry.firstCluster := by
  rw [appendWithin, if_neg hsize]
  dsimp only
  rw [hfind]

/-- An append that returns has made its first search. -/
theorem findWithin_of_isSome (hsize : size ≠ 0)
    (h : (fs.appendWithin n dev name data size parentCluster).isSome) :
    fs.findWithin n dev name.chars (fs.directoryOf parentCluster) =
      some (fs.findDirectoryEntry dev name.chars (fs.directoryOf parentCluster)) := by
  rw [appendWithin, if_neg hsize] at h
  dsimp only at h
  cases hf : fs.findWithin n dev name.chars (fs.directoryOf parentCluster) with
  | none =>
    rw [hf] at h
    cases h
  | some r => rw [findWithin_sound hf]

theorem exists_appendWithin_iff (hsec : 1 ≤ fs.secPerClus) (name : CString) :
    (∃ n, (fs.appendWithin n dev name data size parentCluster).isSome) ↔
      size = 0 ∨ fs.AppendEnds dev name.chars data size (fs.directoryOf parentCluster) := by
  by_cases hsize : size = 0
  · exact iff_of_true ⟨0, by rw [appendWithin, if_pos hsize]; rfl⟩ (Or.inl hsize)
  rw [or_iff_right hsize, AppendEnds]
  cases hfind : fs.findDirectoryEntry dev name.chars (fs.directoryOf parentCluster) with
  | none => exact iff_of_true (appendWithin_new hsec hsize hfind) fun entry he => by cases he
  | some entry =>
    simp only [Option.some.injEq, forall_eq']
    have hback {n : Nat} (h : (fs.appendWithin n dev name data size parentCluster).isSome) :=
      @appendWithin_found fs dev data name n size parentCluster entry hsize
        ((findWithin_of_isSome hsize h).trans (congrArg some hfind))
    have hfound {n : Nat} (hn : 10001 < n) :=
      @appendWithin_found fs dev data name n size parentCluster entry hsize
        ((findWithin_eq hn).trans (congrArg some hfind))
    by_cases h0 : entry.firstCluster = 0
    · simp only [if_pos h0] at hback hfound ⊢
      by_cases hfull : (fs.allocateCluster dev).1 = 0
      · refine iff_of_true ⟨10002, ?_⟩ (Or.inl hfull)
        rw [hfound (by decide), if_pos hfull]
        rfl
      · simp only [if_neg hfull] at hback hfound
        rw [or_iff_right hfull]
        constructor
        · rintro ⟨n, h⟩
          rw [hback h] at h
          exact (exists_appendFromWithin_iff hsec).mp ⟨n, h⟩
        · intro hends
          obtain ⟨n, h⟩ := (exists_appendFromWithin_iff hsec).mpr hends
          refine ⟨n + 10002, ?_⟩
          rw [hfound (by omega)]
          exact appendFromWithin_of_le h (by omega)
    · simp only [if_neg h0] at hback hfound ⊢
      constructor
      · rintro ⟨n, h⟩
        rw [hback h] at h
        cases hlast : fs.lastLoop dev n entry.firstCluster with
        | none =>
          rw [hlast] at h
          cases h
        | some last =>
          rw [hlast] at h
          exact ⟨last, exists_lastLoop_iff.mp ⟨n, hlast⟩,
            (exists_appendFromWithin_iff hsec).mp ⟨n, h⟩⟩
      · rintro ⟨last, hlast, hends⟩
        obtain ⟨m, hlast⟩ := exists_lastLoop_iff.mpr hlast
        obtain ⟨n, h⟩ := (exists_appendFromWithin_iff hsec).mpr hends
        refine ⟨n + m + 10002, ?_⟩
        rw [hfound (by omega), lastLoop_of_le hlast (by omega)]
        exact appendFromWithin_of_le h (by omega)

end Append

/-! The rounds that the model gives to the loops are enough. -/

section Model

variable {fs : FAT32Driver} {dev : BlockDevice} {name : List Byte} {data : Buffer} {size d : Nat}

theorem isSome_searchLoop :
    (fs.searchLoop dev name loopBound d).isSome ↔ fs.SearchEnds dev name d := by
  rw [← exists_searchLoop_iff, Option.isSome_iff_exists, exists_comm]
  exact exists_congr fun r => searchLoop_loopBound

theorem isSome_listDirectory (cluster : Nat) :
    (fs.listDirectory dev cluster).isSome ↔ fs.ChainEnds dev (fs.directoryOf cluster) := by
  rw [listDirectory, Option.isSome_map, isSome_listLoop_loopBound, exists_listLoop_iff]

theorem isSome_updateEntry {oldSize first : Nat} :
    (fs.updateEntry dev name d oldSize size first).isSome ↔ fs.SearchEnds dev name d := by
  rw [← isSome_searchLoop, updateEntry, updateWithin]
  rcases fs.searchLoop dev name loopBound d with _ | _ | s <;> simp

theorem isSome_appendFile (name : CString) (parentCluster : Nat) :
    (fs.appendFile dev name data size parentCluster).isSome ↔
      size = 0 ∨ fs.AppendEnds dev name.chars data size (fs.directoryOf parentCluster) := by
  rw [appendFile, AppendEnds]
  by_cases hsize : size = 0
  · rw [if_pos hsize]
    exact iff_of_true rfl (Or.inl hsize)
  rw [if_neg hsize, or_iff_right hsize]
  dsimp only
  cases fs.findDirectoryEntry dev name.chars (fs.directoryOf parentCluster) with
  | none => exact iff_of_true rfl fun entry he => by cases he
  | some entry =>
    simp only [Option.some.injEq, forall_eq']
    by_cases h0 : entry.firstCluster = 0
    · rw [if_pos h0, if_pos h0]
      by_cases hfull : (fs.allocateCluster dev).1 = 0
      · rw [if_pos hfull]
        exact iff_of_true rfl (Or.inl hfull)
      · rw [if_neg hfull, or_iff_right hfull]
        exact isSome_updateEntry
    · rw [if_neg h0, if_neg h0]
      cases hlast : fs.lastLoop dev loopBound entry.firstCluster with
      | none =>
        refine iff_of_false (by simp) ?_
        rintro ⟨last, h, -⟩
        rw [lastLoop_loopBound.mpr (exists_lastLoop_iff.mpr h)] at hlast
        cases hlast
      | some last =>
        have hl := exists_lastLoop_iff.mp (lastLoop_loopBound.mp hlast)
        refine isSome_updateEntry.trans ⟨fun h => ⟨last, hl, h⟩, ?_⟩
        rintro ⟨last', hl', h⟩
        rwa [IsLast.unique hl hl']

end Model

/-! ## All four -/

/-- A call of a function that searches a directory. -/
inductive SearchCall
  | findDirectoryEntry (name : List Byte) (parentCluster : Nat)
  | listDirectory (cluster : Nat)
  | deleteFile (name : List Byte) (parentCluster : Nat)
  | appendFile (name : CString) (data : Buffer) (size parentCluster : Nat)

namespace SearchCall

variable (fs : FAT32Driver) (dev : BlockDevice)

/-- The call returns, within some number of rounds. -/
def Returns : SearchCall → Prop
  | .findDirectoryEntry name parentCluster => ∃ n, (fs.findWithin n dev name parentCluster).isSome
  | .listDirectory cluster => ∃ n, (fs.listWithin n dev cluster).isSome
  | .deleteFile name parentCluster => ∃ n, (fs.deleteWithin n dev name parentCluster).isSome
  | .appendFile name data size parentCluster =>
    ∃ n, (fs.appendWithin n dev name data size parentCluster).isSome

/-- The links that the call follows, as they are before it, lead to an end mark, or to what it looks
for. Those of `AppendFile` are the clusters of the file, if it finds one that has clusters. -/
def LinksEnd : SearchCall → Prop
  | .findDirectoryEntry _ _ => True
  | .listDirectory cluster => fs.ChainEnds dev (fs.directoryOf cluster)
  | .deleteFile name parentCluster => fs.SearchEnds dev name (fs.directoryOf parentCluster)
  | .appendFile name _ size parentCluster =>
    size ≠ 0 → ∀ s ∈ fs.findSlot dev name.chars parentCluster,
      (fs.slotEntry dev s).firstCluster ≠ 0 →
        ∃ last, fs.IsLast dev (fs.slotEntry dev s).firstCluster last

/-- The call leaves the links alone that it follows after it has written. -/
def WritesBeside : SearchCall → Prop
  | .appendFile name _ size parentCluster => fs.AppendsBeside dev name.chars size parentCluster
  | _ => True

end SearchCall

/-- The entry of an append is the one in the slot that is found. -/
theorem findDirectoryEntry_eq_some_iff {fs : FAT32Driver} {dev : BlockDevice} {name : List Byte}
    {d : Nat} {entry : DirectoryEntry} :
    fs.findDirectoryEntry dev name (fs.directoryOf d) = some entry ↔
      ∃ s, fs.findSlot dev name d = some s ∧ fs.slotEntry dev s = entry := by
  rw [findDirectoryEntry, findSlot_directoryOf, Option.map_eq_some_iff]

/-- The searches of `AppendFile` end when the links of the file do, and what it writes is beside the
way to the entry. -/
theorem appendEnds_of_beside {fs : FAT32Driver} {dev : BlockDevice} {name : List Byte}
    {data : Buffer} {size d : Nat} (hsize : size ≠ 0)
    (hlinks : ∀ s ∈ fs.findSlot dev name d, (fs.slotEntry dev s).firstCluster ≠ 0 →
      ∃ last, fs.IsLast dev (fs.slotEntry dev s).firstCluster last)
    (hbeside : fs.AppendsBeside dev name size d) :
    fs.AppendEnds dev name data size (fs.directoryOf d) := by
  intro entry he
  obtain ⟨s, hfind, rfl⟩ := findDirectoryEntry_eq_some_iff.mp he
  split
  · rw [or_iff_not_imp_left]
    intro hc0
    obtain ⟨k, hfirst⟩ := hbeside.firstMatch_new hsize hfind hc0
    exact searchEnds_of_firstMatch hfirst
  · next h0 =>
    obtain ⟨last, hlast⟩ := hlinks s hfind h0
    obtain ⟨k, hfirst⟩ := hbeside.firstMatch_last hsize hfind h0 hlast
    exact ⟨last, hlast, searchEnds_of_firstMatch hfirst⟩

/-- `FindDirectoryEntry` always returns, and `DeleteFile` and `ListDirectory` return exactly when
the links that they follow come to an end. So does `AppendFile` where its data are beside the way to
the entry; anywhere it returns only if the links of the file end. -/
theorem searches_return_when (fs : FAT32Driver) (hsec : 1 ≤ fs.secPerClus) (dev : BlockDevice)
    (call : SearchCall) :
    (call.Returns fs dev → call.LinksEnd fs dev) ∧
      (call.LinksEnd fs dev → call.WritesBeside fs dev → call.Returns fs dev) := by
  cases call with
  | findDirectoryEntry name parentCluster =>
    refine ⟨fun _ => trivial, fun _ _ => ⟨10002, ?_⟩⟩
    rw [findWithin_eq (by decide)]
    rfl
  | listDirectory cluster =>
    have hiff : (SearchCall.listDirectory cluster).Returns fs dev ↔
        fs.ChainEnds dev (fs.directoryOf cluster) := by
      simp only [SearchCall.Returns, listWithin, Option.isSome_map]
      exact exists_listLoop_iff
    exact ⟨hiff.mp, fun h _ => hiff.mpr h⟩
  | deleteFile name parentCluster =>
    exact ⟨exists_deleteWithin_iff.mp, fun h _ => exists_deleteWithin_iff.mpr h⟩
  | appendFile name data size parentCluster =>
    constructor
    · intro h hsize s hfind h0
      have hends := ((exists_appendWithin_iff hsec name).mp h).resolve_left hsize _
        (findDirectoryEntry_eq_some_iff.mpr ⟨s, hfind, rfl⟩)
      rw [if_neg h0] at hends
      obtain ⟨last, hlast, -⟩ := hends
      exact ⟨last, hlast⟩
    · intro hlinks hbeside
      refine (exists_appendWithin_iff hsec name).mpr ?_
      rw [or_iff_not_imp_left]
      exact fun hsize => appendEnds_of_beside hsize (hlinks hsize) hbeside

/-- On the volume with the one file `A` the entry is in the first cluster of the root directory. -/
theorem firstMatch_oneFile {k : Nat} {s : Slot}
    (h : smallVolume.FirstMatch oneFileDisk [0x61#8] (smallVolume.directoryOf 0) k s) : k = 0 := by
  by_contra hne
  refine (h.2.2.2 0 (Nat.pos_of_ne_zero hne)).2 ⟨0, ?_⟩
  decide +kernel

theorem isLast_oneFile : smallVolume.IsLast oneFileDisk 3 3 := by
  have hend : endOfChain ≤ smallVolume.getNextCluster oneFileDisk 3 := by decide +kernel
  exact ⟨0, if_pos hend, fun j hj => absurd hj (Nat.not_lt_zero j)⟩

/-- An append to the file writes to cluster 3 and to free ones. -/
theorem appendsBeside_oneFile (size : Nat) :
    smallVolume.AppendsBeside oneFileDisk [0x61#8] size 0 := by
  have heval : smallVolume.findSlot oneFileDisk [0x61#8] 0 = some ⟨2, 0⟩ ∧
      (smallVolume.slotEntry oneFileDisk ⟨2, 0⟩).firstCluster = 3 ∧
      (smallVolume.view oneFileDisk.store).fat 2 ≠ 0 := by
    decide +kernel
  obtain ⟨hfind, hentry, hused⟩ := heval
  intro _ s hs _
  cases hfind.symm.trans hs
  refine ⟨smallVolume_geometry, fun k hfirst => ?_⟩
  obtain rfl := firstMatch_oneFile hfirst
  rw [hentry]
  refine ⟨fun j hj => ?_, fun j hj => ?_, fun _ last hl => ?_⟩
  · rw [Nat.le_zero.mp hj]
    exact ⟨by decide, by decide, by decide⟩
  · rw [Nat.le_zero.mp hj]
    exact hused
  · rw [IsLast.unique hl isLast_oneFile]
    refine ⟨⟨by decide, by decide, by decide⟩, fun j hj => ?_⟩
    rw [Nat.le_zero.mp hj]
    decide

/-- The append ends. -/
theorem searches_return_small :
    (SearchCall.appendFile ⟨[0x61#8], []⟩ (fun k => BitVec.ofNat 8 k) 600 0).Returns smallVolume
      oneFileDisk := by
  have heval : smallVolume.findSlot oneFileDisk [0x61#8] 0 = some ⟨2, 0⟩ ∧
      (smallVolume.slotEntry oneFileDisk ⟨2, 0⟩).firstCluster = 3 := by
    decide +kernel
  obtain ⟨hfind, hentry⟩ := heval
  refine (searches_return_when smallVolume (by decide) oneFileDisk _).2 (fun _ s hs _ => ?_)
    (appendsBeside_oneFile 600)
  cases hfind.symm.trans hs
  exact ⟨3, hentry ▸ isLast_oneFile⟩

/-- The root directory has the file `A`; its one cluster, and the one of the file, link to
themselves. -/
def roundDisk : Disk := fun lba k =>
  if lba < 2 then
    ([0xF8#8, 0xFF#8, 0xFF#8, 0x0F#8, 0xFF#8, 0xFF#8, 0xFF#8, 0x0F#8, 2#8, 0#8, 0#8, 0#8,
      3#8, 0#8, 0#8, 0#8] : List Byte).getD k 0
  else if lba = 2 then (DirectoryEntry.create (to83Format [0x61#8]) 3 1 0x20#8).getD k 0
  else 0

/-- `DeleteFile` of a name that is not there, `ListDirectory`, and `AppendFile` to the file do not
return. -/
theorem searches_do_not_return : 1 ≤ smallVolume.secPerClus ∧
    ¬(SearchCall.deleteFile [0x62#8] 0).Returns smallVolume ⟨roundDisk, []⟩ ∧
    ¬(SearchCall.listDirectory 0).Returns smallVolume ⟨roundDisk, []⟩ ∧
    ¬(SearchCall.appendFile ⟨[0x61#8], []⟩ (fun _ => 0) 1 0).Returns smallVolume
      ⟨roundDisk, []⟩ := by
  have heval : smallVolume.getNextCluster ⟨roundDisk, []⟩ 2 = 2 ∧
      smallVolume.getNextCluster ⟨roundDisk, []⟩ 3 = 3 ∧
      smallVolume.directoryOf 0 = 2 ∧
      scanSlots (BlockDevice.read ⟨roundDisk, []⟩ (smallVolume.clusterToLBA 2)) [0x62#8]
        smallVolume.slotsPerCluster 0 = .ended ∧
      (smallVolume.findDirectoryEntry ⟨roundDisk, []⟩ [0x61#8] 2).map
        DirectoryEntry.firstCluster = some 3 := by
    decide +kernel
  obtain ⟨h2, h3, hroot, hscan, hfind⟩ := heval
  refine ⟨by decide, fun h => ?_, fun h => ?_, fun h => ?_⟩
  · obtain ⟨k, hend | ⟨i, hmatch⟩⟩ := exists_deleteWithin_iff.mp h
    · rw [hroot, Function.iterate_fixed h2] at hend
      exact absurd hend (by decide)
    · rw [hroot, Function.iterate_fixed h2, hscan] at hmatch
      cases hmatch
  · simp only [SearchCall.Returns, listWithin, Option.isSome_map] at h
    obtain ⟨k, hend⟩ := exists_listLoop_iff.mp h
    rw [hroot, Function.iterate_fixed h2] at hend
    exact absurd hend (by decide)
  · obtain ⟨entry, he, hfirst⟩ := Option.map_eq_some_iff.mp hfind
    rcases (exists_appendWithin_iff (by decide) _).mp h with h0 | hends
    · exact absurd h0 (by decide)
    · rw [hroot] at hends
      have hlast := hends entry he
      rw [if_neg (by rw [hfirst]; decide), hfirst] at hlast
      obtain ⟨last, ⟨k, hk, -⟩, -⟩ := hlast
      rw [Function.iterate_fixed h3, lastOut, h3, if_neg (by decide)] at hk
      cases hk

end Sylphia
