import Sylphia.Fat.EnsureDirectory

/-!
# What a read copies, and what it reports

`ReadFile` takes the size from the entry, the clusters from the FAT and the room from its
caller. Here it counts in 32 bits, each of its loops is given a number of rounds, and a device
read may fail: the reads of a call are numbered, and one that fails leaves in the buffer what
is there. What the loop copies is bounded whatever the device holds; what it reports is not
what it copied.
-/

namespace Sylphia

open Bytes WriteLog

/-- The device reads that fail, by their number in the call, and what is in the buffer then. -/
structure Faults where
  fails : Nat → Bool
  stale : Nat → Buffer

/-- The buffer after the `i`-th `Read` of a call, where no one looks at the result. -/
def Faults.read (f : Faults) (dev : BlockDevice) (i lba : Nat) : Buffer :=
  if f.fails i then f.stale i else BlockDevice.read dev lba

/-- `memcpy(out_ptr + offset, temp_buf, copy_len)`. -/
structure Copy where
  offset : Nat
  len : Nat
  temp : Buffer

/-- The bytes that are copied. -/
def Copy.bytes (c : Copy) : List Byte := slice c.temp 0 c.len

/-- How many bytes are copied. -/
def copiedBytes (copies : List Copy) : Nat := (copies.map Copy.len).sum

/-- Copies from `offset` on without a gap, each of bytes that a buffer of `room` bytes has, and
none behind `limit`. -/
def Gapless (room limit : Nat) : Nat → List Copy → Prop
  | offset, [] => offset ≤ limit
  | offset, c :: copies =>
    c.offset = offset ∧ 0 < c.len ∧ c.len ≤ room ∧ Gapless room limit (offset + c.len) copies

/-- A call of `ReadFile`: the entry of the path, the value returned, the copies to the caller's
buffer, and the number of device reads. -/
structure ReadRun where
  entry : Option DirectoryEntry
  returned : Nat
  copies : List Copy
  reads : Nat

/-- The size of the file, if there is one. -/
def ReadRun.size (run : ReadRun) : Nat := (run.entry.map DirectoryEntry.fileSize).getD 0

/-- The value returned is the number of the bytes copied, and if a device read failed, it is not
the size of the file. -/
def ReadRun.Truthful (run : ReadRun) (f : Faults) : Prop :=
  copiedBytes run.copies = run.returned ∧
    ∀ entry ∈ run.entry, (∃ i < run.reads, f.fails i = true) → run.returned ≠ entry.fileSize

namespace FAT32Driver

/-- `GetNextCluster`, by the `i`-th read. -/
def nextRead (fs : FAT32Driver) (f : Faults) (dev : BlockDevice) (i current : Nat) : Nat :=
  fatEntry (f.read dev i (fs.fatStartLba + current / 128)) (current % 128) &&& 0x0FFFFFFF

/-- The loop of `FindDirectoryEntry`, which looks at the result of one of its two reads: the
entry, and the number of the next read. -/
def findReads (fs : FAT32Driver) (f : Faults) (dev : BlockDevice) (name : List Byte) :
    Nat → Nat → Nat → Option DirectoryEntry × Nat
  | 0, _, i => (none, i)
  | n + 1, current, i =>
    if current < endOfChain ∧ current ≥ 2 then
      if f.fails i then (none, i + 1)
      else
        match scanSlots (BlockDevice.read dev (fs.clusterToLBA current))
          name fs.slotsPerCluster 0 with
        | .found j => (some (fs.slotEntry dev ⟨current, j⟩), i + 1)
        | .ended => (none, i + 1)
        | .exhausted => findReads fs f dev name n (fs.nextRead f dev (i + 1) current) (i + 2)
    else (none, i)

/-- The loop of `GetFileEntry`, within so many rounds. -/
def resolveReads (fs : FAT32Driver) (f : Faults) (dev : BlockDevice) :
    Nat → List Byte → Nat → Nat → Option (Option DirectoryEntry × Nat)
  | 0, _, _, _ => none
  | n + 1, path, current, i =>
    if path = [] then some (none, i)
    else
      match fs.findReads f dev (segment path) 10001 (fs.directoryOf current) i with
      | (none, i) => some (none, i)
      | (some entry, i) =>
        if path.drop (segment path).length = [] then some (some entry, i)
        else if !entry.isDirectory then some (none, i)
        else resolveReads fs f dev n (behind path) (fs.directoryOf entry.firstCluster) i

/-- `GetFileEntry` within `n` rounds: the entry, and how many reads it took. -/
def entryReads (fs : FAT32Driver) (f : Faults) (n : Nat) (dev : BlockDevice) (path : List Byte)
    (baseCluster : Nat) : Option (Option DirectoryEntry × Nat) :=
  if path.head? = some 0x2F#8 then fs.resolveReads f dev n (path.drop 1) fs.rootClus 0
  else fs.resolveReads f dev n path (fs.directoryOf baseCluster) 0

/-- The loop of `ReadFile`, within so many rounds and from the `i`-th read on, with
`bytes_remaining`, `offset` and `current_cluster`. -/
def readRounds (fs : FAT32Driver) (f : Faults) (dev : BlockDevice) :
    Nat → Nat → Nat → Nat → Nat → Option (List Copy)
  | 0, _, _, _, _ => none
  | n + 1, i, remaining, offset, current =>
    if remaining > 0 ∧ current < endOfChain then
      let clusterBytes := fs.secPerClus * 512 % 2 ^ 32
      let temp := f.read dev i (fs.clusterToLBA current)
      let len := if remaining > clusterBytes then clusterBytes else remaining
      (readRounds fs f dev n (i + 2) ((remaining + 2 ^ 32 - len) % 2 ^ 32) ((offset + len) % 2 ^ 32)
        (fs.nextRead f dev (i + 1) current)).map (⟨offset, len, temp⟩ :: ·)
    else some []

/-- `ReadFile` within `n` rounds of each loop. -/
def readWithin (fs : FAT32Driver) (f : Faults) (n : Nat) (dev : BlockDevice) (path : List Byte)
    (bufferSize baseCluster : Nat) : Option ReadRun :=
  match fs.entryReads f n dev path baseCluster with
  | none => none
  | some (none, i) => some ⟨none, 0, [], i⟩
  | some (some entry, i) =>
    if entry.fileSize > bufferSize then some ⟨some entry, 0, [], i⟩
    else
      (fs.readRounds f dev n i entry.fileSize 0 entry.firstCluster).map fun copies =>
        ⟨some entry, entry.fileSize, copies, i + 2 * copies.length⟩

end FAT32Driver

open FAT32Driver

/-! ## The lookup -/

section Lookup

variable {fs : FAT32Driver} {f : Faults} {dev : BlockDevice} {path name : List Byte}
  {n m c i k current : Nat} {found : Option DirectoryEntry} {r : Option DirectoryEntry × Nat}

theorem Faults.read_of_succeeds (h : f.fails i = false) (dev : BlockDevice) (lba : Nat) :
    f.read dev i lba = BlockDevice.read dev lba := by
  rw [Faults.read, h, if_neg Bool.false_ne_true]

theorem nextRead_of_succeeds (h : f.fails i = false) :
    fs.nextRead f dev i c = fs.getNextCluster dev c := by
  rw [nextRead, getNextCluster, Faults.read_of_succeeds h]

theorem le_findReads : i ≤ (fs.findReads f dev name n c i).2 := by
  induction n generalizing c i with
  | zero => exact le_rfl
  | succ n ih =>
    rw [findReads]
    split_ifs
    · exact Nat.le_succ i
    · split
      · exact Nat.le_succ i
      · exact Nat.le_succ i
      · exact Nat.le_trans (Nat.le_add_right i 2) ih
    · exact le_rfl

/-- If no read fails, the loop finds what `FindDirectoryEntry` finds. -/
theorem findReads_of_succeeds (h : ∀ j < (fs.findReads f dev name n c i).2, f.fails j = false) :
    (fs.findReads f dev name n c i).1 = (fs.findLoop dev name n c).map (fs.slotEntry dev) := by
  induction n generalizing c i with
  | zero => rfl
  | succ n ih =>
    rw [findReads] at h ⊢
    rw [findLoop]
    by_cases hc : c < endOfChain ∧ c ≥ 2
    · rw [if_pos hc] at h ⊢
      rw [if_pos hc]
      have hi : ¬f.fails i = true := by
        intro hfails
        rw [if_pos hfails] at h
        exact absurd hfails (by simp [h i (Nat.lt_succ_self i)])
      rw [if_neg hi] at h ⊢
      cases hscan : scanSlots (BlockDevice.read dev (fs.clusterToLBA c))
        name fs.slotsPerCluster 0 with
      | found j => rfl
      | ended => rfl
      | exhausted =>
        rw [hscan] at h
        have hnext : f.fails (i + 1) = false := h (i + 1) le_findReads
        rw [ih h, nextRead_of_succeeds hnext]
    · rw [if_neg hc, if_neg hc]
      rfl

/-- What is left of a path behind its first segment is shorter. -/
theorem length_behind_lt (hpath : path ≠ []) (hrest : path.drop (segment path).length ≠ []) :
    (behind path).length < path.length := by
  have hpos : 0 < path.length := List.length_pos_iff.mpr hpath
  rw [behind]
  split_ifs with hslash
  · rw [List.length_drop, List.length_drop]
    omega
  · have hseg : segment path ≠ [] := by
      intro hnil
      rw [hnil, List.length_nil, List.drop_zero] at hslash
      obtain ⟨x, xs, rfl⟩ := List.exists_cons_of_ne_nil hpath
      have hx : x ≠ 0x2F#8 := by simpa using hslash
      rw [segment, List.takeWhile_cons_of_pos (by simpa using hx)] at hnil
      cases hnil
    have := List.length_pos_iff.mpr hseg
    rw [List.length_drop]
    omega

/-- More rounds do not change what the loop along a path gives. -/
theorem resolveReads_of_le (h : fs.resolveReads f dev n path current i = some r) (hle : n ≤ m) :
    fs.resolveReads f dev m path current i = some r := by
  induction n generalizing m path current i with
  | zero => cases h
  | succ n ih =>
    obtain ⟨m, rfl⟩ := Nat.exists_eq_add_of_le' (Nat.le_trans (Nat.succ_pos n) hle)
    rw [resolveReads] at h ⊢
    by_cases hpath : path = []
    · rwa [if_pos hpath] at h ⊢
    · rw [if_neg hpath] at h ⊢
      rcases hfind : fs.findReads f dev (segment path) 10001 (fs.directoryOf current) i with
        ⟨_ | entry, k⟩
      · rwa [hfind] at h
      · rw [hfind] at h
        dsimp only at h ⊢
        split_ifs at h ⊢ with hrest hdir
        · exact h
        · exact h
        · exact ih h (Nat.le_of_succ_le_succ hle)

/-- The loop along a path ends. -/
theorem isSome_resolveReads (h : path.length < n) :
    (fs.resolveReads f dev n path current i).isSome := by
  induction n generalizing path current i with
  | zero => exact absurd h (Nat.not_lt_zero _)
  | succ n ih =>
    rw [resolveReads]
    by_cases hpath : path = []
    · rw [if_pos hpath]
      rfl
    · rw [if_neg hpath]
      rcases fs.findReads f dev (segment path) 10001 (fs.directoryOf current) i with ⟨_ | entry, k⟩
      · rfl
      · dsimp only
        split_ifs with hrest hdir
        · rfl
        · rfl
        · have := length_behind_lt hpath hrest
          exact ih (by omega)

/-- What one round of the loop along a path can do. -/
theorem resolveReads_cases (h : fs.resolveReads f dev (n + 1) path current i = some r) :
    path = [] ∧ r = (none, i) ∨
      path ≠ [] ∧ ∃ found k, fs.findReads f dev (segment path) 10001 (fs.directoryOf current) i =
          (found, k) ∧
        (found = none ∧ r = (none, k) ∨ ∃ entry, found = some entry ∧
          (path.drop (segment path).length = [] ∧ r = (some entry, k) ∨
            path.drop (segment path).length ≠ [] ∧ entry.isDirectory = false ∧ r = (none, k) ∨
            path.drop (segment path).length ≠ [] ∧ entry.isDirectory = true ∧
              fs.resolveReads f dev n (behind path) (fs.directoryOf entry.firstCluster) k =
                some r)) := by
  rw [resolveReads] at h
  by_cases hpath : path = []
  · rw [if_pos hpath] at h
    exact Or.inl ⟨hpath, (Option.some.inj h).symm⟩
  · rw [if_neg hpath] at h
    rcases hfind : fs.findReads f dev (segment path) 10001 (fs.directoryOf current) i with
      ⟨_ | entry, k⟩
    · rw [hfind] at h
      exact Or.inr ⟨hpath, none, k, rfl, Or.inl ⟨rfl, (Option.some.inj h).symm⟩⟩
    · rw [hfind] at h
      refine Or.inr ⟨hpath, some entry, k, rfl, Or.inr ⟨entry, rfl, ?_⟩⟩
      dsimp only at h
      split_ifs at h with hrest hdir
      · exact Or.inl ⟨hrest, (Option.some.inj h).symm⟩
      · exact Or.inr (Or.inl ⟨hrest, by simpa using hdir, (Option.some.inj h).symm⟩)
      · exact Or.inr (Or.inr ⟨hrest, by simpa using hdir, h⟩)

theorem le_resolveReads (h : fs.resolveReads f dev n path current i = some r) : i ≤ r.2 := by
  induction n generalizing path current i with
  | zero => cases h
  | succ n ih =>
    have hle := @le_findReads fs f dev (segment path) 10001 (fs.directoryOf current) i
    obtain ⟨-, rfl⟩ | ⟨-, found, k, hfind, hround⟩ := resolveReads_cases h
    · exact le_rfl
    · rw [hfind] at hle
      obtain ⟨-, rfl⟩ | ⟨entry, -, ⟨-, rfl⟩ | ⟨-, -, rfl⟩ | ⟨-, -, hnext⟩⟩ := hround
      · exact hle
      · exact hle
      · exact hle
      · exact Nat.le_trans hle (ih hnext)

/-- If no read fails, the loop along a path gets to the entry that `GetFileEntry` gets to. -/
theorem resolveReads_of_succeeds (h : fs.resolveReads f dev n path current i = some r)
    (hclean : ∀ j < r.2, f.fails j = false) (hm : path.length ≤ m) :
    r.1 = (fs.resolveLoop dev m path current).map (fs.slotEntry dev) := by
  induction n generalizing path current i m with
  | zero => cases h
  | succ n ih =>
    obtain ⟨rfl, rfl⟩ | ⟨hpath, found, k, hfind, hround⟩ := resolveReads_cases h
    · cases m with
      | zero => rfl
      | succ m => rw [resolveLoop_succ, if_pos rfl, Option.map_none]
    · obtain ⟨m, rfl⟩ := Nat.exists_eq_add_of_le' (Nat.le_trans (List.length_pos_iff.mpr hpath) hm)
      have hfound (hk : ∀ j < k, f.fails j = false) :
          found = (fs.findSlot dev (segment path) current).map (fs.slotEntry dev) := by
        have hsame := @findReads_of_succeeds fs f dev (segment path) 10001
          (fs.directoryOf current) i
        rw [hfind] at hsame
        exact hsame hk
      rw [resolveLoop_succ, if_neg hpath]
      obtain ⟨rfl, rfl⟩ | ⟨entry, rfl, hgo⟩ := hround
      · rw [Option.map_eq_none_iff.mp (hfound hclean).symm]
        rfl
      · have hk : ∀ j < k, f.fails j = false := by
          obtain ⟨-, rfl⟩ | ⟨-, -, rfl⟩ | ⟨-, -, hnext⟩ := hgo
          · exact hclean
          · exact hclean
          · exact fun j hj => hclean j (Nat.lt_of_lt_of_le hj (le_resolveReads hnext))
        obtain ⟨s, hs, rfl⟩ := Option.map_eq_some_iff.mp (hfound hk).symm
        rw [hs]
        obtain ⟨hrest, rfl⟩ | ⟨hrest, hdir, rfl⟩ | ⟨hrest, hdir, hnext⟩ := hgo
        · rw [hrest]
          rfl
        · dsimp only
          rw [if_neg hrest, hdir]
          rfl
        · have := length_behind_lt hpath hrest
          dsimp only
          rw [if_neg hrest, hdir]
          exact ih hnext (by omega)

theorem entryReads_of_le (h : fs.entryReads f n dev path c = some r) (hle : n ≤ m) :
    fs.entryReads f m dev path c = some r := by
  rw [entryReads] at h ⊢
  split_ifs at h ⊢
  · exact resolveReads_of_le h hle
  · exact resolveReads_of_le h hle

/-- `GetFileEntry` ends. -/
theorem exists_entryReads (fs : FAT32Driver) (f : Faults) (dev : BlockDevice) (path : List Byte)
    (baseCluster : Nat) :
    ∃ r, ∀ n > path.length, fs.entryReads f n dev path baseCluster = some r := by
  have hsome : (fs.entryReads f (path.length + 1) dev path baseCluster).isSome := by
    rw [entryReads]
    split_ifs with hslash
    · exact isSome_resolveReads (by rw [List.length_drop]; omega)
    · exact isSome_resolveReads (Nat.lt_succ_self _)
  obtain ⟨r, hr⟩ := Option.isSome_iff_exists.mp hsome
  exact ⟨r, fun n hn => entryReads_of_le hr hn⟩

/-- If no read of it fails, the lookup gives the entry of `GetFileEntry`. -/
theorem entryReads_of_succeeds (h : fs.entryReads f n dev path c = some r)
    (hclean : ∀ j < r.2, f.fails j = false) : r.1 = fs.getFileEntry dev path c := by
  rw [entryReads] at h
  rw [getFileEntry, resolve]
  split_ifs at h ⊢
  · exact resolveReads_of_succeeds h hclean (by rw [List.length_drop]; omega)
  · exact resolveReads_of_succeeds h hclean le_rfl

end Lookup

/-! ## The copies -/

theorem DirectoryEntry.fileSize_lt (e : DirectoryEntry) : e.fileSize < 2 ^ 32 := by
  have hlt := ofLE_lt ((List.drop 28 e).take 4)
  have hlen : ((List.drop 28 e).take 4).length ≤ 4 := List.length_take_le _ _
  have hpow : 256 ^ ((List.drop 28 e).take 4).length ≤ 256 ^ 4 :=
    Nat.pow_le_pow_right (by decide) hlen
  rw [DirectoryEntry.fileSize]
  exact Nat.lt_of_lt_of_le hlt hpow

/-- `copy_len`. -/
def FAT32Driver.copyLen (fs : FAT32Driver) (remaining : Nat) : Nat :=
  if remaining > fs.clusterBytes then fs.clusterBytes else remaining

section Copies

variable {fs : FAT32Driver} {f : Faults} {dev : BlockDevice} {copies : List Copy}
  {n m i remaining offset current limit : Nat}

theorem copyLen_le_remaining : fs.copyLen remaining ≤ remaining := by
  rw [copyLen]
  split_ifs <;> omega

theorem copyLen_le_clusterBytes : fs.copyLen remaining ≤ fs.clusterBytes := by
  rw [copyLen]
  split_ifs <;> omega

theorem copyLen_pos (hpos : 0 < fs.clusterBytes) (h : 0 < remaining) :
    0 < fs.copyLen remaining := by
  rw [copyLen]
  split_ifs <;> omega

/-- One round of `ReadFile`; no number that it counts with overflows. -/
theorem readRounds_succ (hsec : fs.secPerClus < 256) (hsize : offset + remaining < 2 ^ 32) :
    fs.readRounds f dev (n + 1) i remaining offset current =
      if remaining > 0 ∧ current < endOfChain then
        (fs.readRounds f dev n (i + 2) (remaining - fs.copyLen remaining)
          (offset + fs.copyLen remaining) (fs.nextRead f dev (i + 1) current)).map
            (⟨offset, fs.copyLen remaining, f.read dev i (fs.clusterToLBA current)⟩ :: ·)
      else some [] := by
  have hbytes : fs.secPerClus * 512 % 2 ^ 32 = fs.clusterBytes := by
    rw [clusterBytes]
    exact Nat.mod_eq_of_lt (by omega)
  have hle := @copyLen_le_remaining fs remaining
  rw [readRounds, hbytes]
  dsimp only
  rw [← copyLen, show (remaining + 2 ^ 32 - fs.copyLen remaining) % 2 ^ 32 =
      remaining - fs.copyLen remaining by omega,
    show (offset + fs.copyLen remaining) % 2 ^ 32 = offset + fs.copyLen remaining by omega]

/-- What one round of `ReadFile` can do. -/
theorem readRounds_cases (hsec : fs.secPerClus < 256) (hsize : offset + remaining < 2 ^ 32)
    (h : fs.readRounds f dev (n + 1) i remaining offset current = some copies) :
    ¬(0 < remaining ∧ current < endOfChain) ∧ copies = [] ∨
      (0 < remaining ∧ current < endOfChain) ∧ ∃ rest,
        copies = ⟨offset, fs.copyLen remaining, f.read dev i (fs.clusterToLBA current)⟩ :: rest ∧
        fs.readRounds f dev n (i + 2) (remaining - fs.copyLen remaining)
          (offset + fs.copyLen remaining) (fs.nextRead f dev (i + 1) current) = some rest := by
  rw [readRounds_succ hsec hsize] at h
  by_cases hgo : remaining > 0 ∧ current < endOfChain
  · rw [if_pos hgo] at h
    obtain ⟨rest, hrest, rfl⟩ := Option.map_eq_some_iff.mp h
    exact Or.inr ⟨hgo, rest, rfl, hrest⟩
  · rw [if_neg hgo] at h
    exact Or.inl ⟨hgo, (Option.some.inj h).symm⟩

/-- The loop ends within as many rounds as the size has clusters. -/
theorem exists_readRounds (hpos : 0 < fs.clusterBytes) (hsec : fs.secPerClus < 256)
    (hsize : offset + remaining < 2 ^ 32) :
    ∃ copies, ∀ n > fs.clustersFor remaining,
      fs.readRounds f dev n i remaining offset current = some copies := by
  induction hq : fs.clustersFor remaining generalizing i remaining offset current with
  | zero =>
    have hspec := (clustersFor_spec hpos remaining).1
    rw [hq, Nat.zero_mul] at hspec
    refine ⟨[], fun n hn => ?_⟩
    obtain ⟨n, rfl⟩ := Nat.exists_eq_add_of_le' hn
    rw [readRounds_succ hsec hsize, if_neg fun h => absurd h.1 (by omega)]
  | succ q ih =>
    have hremaining : 0 < remaining := by
      refine Nat.pos_of_ne_zero fun h0 => ?_
      rw [h0, clustersFor_zero fs] at hq
      cases hq
    have hle := @copyLen_le_remaining fs remaining
    obtain ⟨rest, hrest⟩ := @ih (i + 2) (remaining - fs.copyLen remaining)
      (offset + fs.copyLen remaining) (fs.nextRead f dev (i + 1) current) (by omega) (by
        have hstep := clustersFor_step hpos hremaining
        rw [← copyLen] at hstep
        omega)
    refine ⟨if current < endOfChain then
        ⟨offset, fs.copyLen remaining, f.read dev i (fs.clusterToLBA current)⟩ :: rest else [],
      fun n hn => ?_⟩
    obtain ⟨n, rfl⟩ := Nat.exists_eq_add_of_le' (Nat.le_trans (Nat.succ_pos _) hn)
    rw [readRounds_succ hsec hsize]
    by_cases hcur : current < endOfChain
    · rw [if_pos ⟨hremaining, hcur⟩, if_pos hcur, hrest n (by omega), Option.map_some]
    · rw [if_neg fun h => hcur h.2, if_neg hcur]

/-- The copies lie side by side, within the size of the file. -/
theorem gapless_readRounds (hpos : 0 < remaining → 0 < fs.clusterBytes) (hsec : fs.secPerClus < 256)
    (hsize : offset + remaining < 2 ^ 32)
    (h : fs.readRounds f dev n i remaining offset current = some copies) :
    Gapless fs.clusterBytes (offset + remaining) offset copies := by
  induction n generalizing i remaining offset current copies with
  | zero => cases h
  | succ n ih =>
    have hle := @copyLen_le_remaining fs remaining
    obtain ⟨-, rfl⟩ | ⟨⟨hremaining, -⟩, rest, rfl, hrest⟩ := readRounds_cases hsec hsize h
    · exact Nat.le_add_right offset remaining
    · have hgap := ih (fun _ => hpos hremaining) (by omega) hrest
      rw [show offset + fs.copyLen remaining + (remaining - fs.copyLen remaining) =
        offset + remaining by omega] at hgap
      exact ⟨rfl, copyLen_pos (hpos hremaining) hremaining, copyLen_le_clusterBytes, hgap⟩

/-- Every copy but the last one is of a whole cluster. -/
theorem copiedBytes_readRounds (hsec : fs.secPerClus < 256) (hsize : offset + remaining < 2 ^ 32)
    (h : fs.readRounds f dev n i remaining offset current = some copies) :
    copiedBytes copies = min remaining (copies.length * fs.clusterBytes) := by
  induction n generalizing i remaining offset current copies with
  | zero => cases h
  | succ n ih =>
    have hle := @copyLen_le_remaining fs remaining
    obtain ⟨-, rfl⟩ | ⟨-, rest, rfl, hrest⟩ := readRounds_cases hsec hsize h
    · rw [List.length_nil, Nat.zero_mul, Nat.min_zero]
      rfl
    · have hsum := ih (by omega) hrest
      rw [copiedBytes, List.map_cons, List.sum_cons, ← copiedBytes, hsum, List.length_cons,
        Nat.add_mul, Nat.one_mul]
      dsimp only
      rw [copyLen]
      split_ifs <;> omega

theorem length_readRounds (hpos : 0 < remaining → 0 < fs.clusterBytes) (hsec : fs.secPerClus < 256)
    (hsize : offset + remaining < 2 ^ 32)
    (h : fs.readRounds f dev n i remaining offset current = some copies) :
    copies.length ≤ fs.clustersFor remaining := by
  induction n generalizing i remaining offset current copies with
  | zero => cases h
  | succ n ih =>
    have hle := @copyLen_le_remaining fs remaining
    obtain ⟨-, rfl⟩ | ⟨⟨hremaining, -⟩, rest, rfl, hrest⟩ := readRounds_cases hsec hsize h
    · exact Nat.zero_le _
    · have hlen := ih (fun _ => hpos hremaining) (by omega) hrest
      rw [clustersFor_step (hpos hremaining) hremaining, ← copyLen]
      exact Nat.succ_le_succ hlen

/-- Everything is copied if and only if the chain has a cluster for every part of the file. -/
theorem copiedBytes_eq_iff (hpos : 0 < remaining → 0 < fs.clusterBytes) (hsec : fs.secPerClus < 256)
    (hsize : offset + remaining < 2 ^ 32)
    (h : fs.readRounds f dev n i remaining offset current = some copies) :
    copiedBytes copies = remaining ↔ copies.length = fs.clustersFor remaining := by
  have hlen := length_readRounds hpos hsec hsize h
  rw [copiedBytes_readRounds hsec hsize h]
  rcases Nat.eq_zero_or_pos remaining with rfl | hremaining
  · rw [clustersFor_zero] at hlen ⊢
    omega
  · have hspec := clustersFor_spec (hpos hremaining) remaining
    refine ⟨fun hall => Nat.le_antisymm hlen ?_, fun hall => by rw [hall]; omega⟩
    refine Nat.lt_succ_iff.mp (Nat.lt_of_mul_lt_mul_right (a := fs.clusterBytes) ?_)
    rw [Nat.succ_mul]
    omega

/-- If no read fails, the loop copies from the clusters of the chain. -/
theorem length_readRounds_iff (hpos : 0 < remaining → 0 < fs.clusterBytes)
    (hsec : fs.secPerClus < 256)
    (hsize : offset + remaining < 2 ^ 32)
    (hclean : ∀ j < i + 2 * copies.length, f.fails j = false)
    (h : fs.readRounds f dev n i remaining offset current = some copies) :
    copies.length = fs.clustersFor remaining ↔
      ∀ k < fs.clustersFor remaining, (fs.getNextCluster dev)^[k] current < endOfChain := by
  induction n generalizing i remaining offset current copies with
  | zero => cases h
  | succ n ih =>
    have hle := @copyLen_le_remaining fs remaining
    obtain ⟨hstop, rfl⟩ | ⟨⟨hremaining, hcur⟩, rest, rfl, hrest⟩ := readRounds_cases hsec hsize h
    · rcases Nat.eq_zero_or_pos remaining with rfl | hremaining
      · simp [clustersFor_zero fs]
      · have hstep := clustersFor_step (hpos hremaining) hremaining
        refine ⟨fun hlen => ?_, fun hchain => ?_⟩
        · rw [hstep] at hlen
          cases hlen
        · exact absurd ⟨hremaining, hchain 0 (by omega)⟩ hstop
    · rw [List.length_cons] at hclean
      have hnext : fs.nextRead f dev (i + 1) current = fs.getNextCluster dev current :=
        nextRead_of_succeeds (hclean _ (by omega))
      rw [hnext] at hrest
      have hrec := ih (fun _ => hpos hremaining) (by omega) (fun j hj => hclean j (by omega)) hrest
      rw [clustersFor_step (hpos hremaining) hremaining, ← copyLen, List.length_cons,
        Nat.add_right_cancel_iff, hrec]
      refine ⟨fun hchain k hk => ?_, fun hchain k hk => hchain (k + 1) (by omega)⟩
      cases k with
      | zero => exact hcur
      | succ k => exact hchain k (by omega)

/-- If no read fails, the bytes copied are those of `readLoop`. -/
theorem bytes_readRounds (hpos : 0 < remaining → 0 < fs.clusterBytes) (hsec : fs.secPerClus < 256)
    (hsize : offset + remaining < 2 ^ 32)
    (hclean : ∀ j < i + 2 * copies.length, f.fails j = false)
    (h : fs.readRounds f dev n i remaining offset current = some copies) (hm : remaining ≤ m) :
    copies.flatMap Copy.bytes = fs.readLoop dev m remaining current := by
  induction n generalizing i remaining offset current copies m with
  | zero => cases h
  | succ n ih =>
    have hle := @copyLen_le_remaining fs remaining
    obtain ⟨hstop, rfl⟩ | ⟨hgo, rest, rfl, hrest⟩ := readRounds_cases hsec hsize h
    · cases m with
      | zero => rfl
      | succ m => rw [readLoop, if_neg hstop, List.flatMap_nil]
    · obtain ⟨m, rfl⟩ := Nat.exists_eq_add_of_le' (Nat.le_trans hgo.1 hm)
      have hlen := copyLen_pos (hpos hgo.1) hgo.1
      rw [List.length_cons] at hclean
      rw [nextRead_of_succeeds (hclean (i + 1) (by omega))] at hrest
      have hbytes := ih (m := m) (fun _ => hpos hgo.1) (by omega) (fun j hj => hclean j (by omega))
        hrest (by omega)
      rw [readLoop, if_pos hgo, List.flatMap_cons, Copy.bytes,
        Faults.read_of_succeeds (hclean i (by omega)), hbytes]
      rfl

end Copies

/-! ## The call -/

section Call

variable {fs : FAT32Driver} {f : Faults} {dev : BlockDevice} {path : List Byte} {run : ReadRun}
  {n bufferSize baseCluster : Nat}

/-- What a call of `ReadFile` can come to. -/
theorem readWithin_cases (h : fs.readWithin f n dev path bufferSize baseCluster = some run) :
    ∃ found i, fs.entryReads f n dev path baseCluster = some (found, i) ∧
      (found = none ∧ run = ⟨none, 0, [], i⟩ ∨ ∃ entry, found = some entry ∧
        (bufferSize < entry.fileSize ∧ run = ⟨some entry, 0, [], i⟩ ∨
          entry.fileSize ≤ bufferSize ∧ ∃ copies,
            fs.readRounds f dev n i entry.fileSize 0 entry.firstCluster = some copies ∧
            run = ⟨some entry, entry.fileSize, copies, i + 2 * copies.length⟩)) := by
  rw [readWithin] at h
  rcases hfind : fs.entryReads f n dev path baseCluster with _ | ⟨_ | entry, i⟩
  · rw [hfind] at h
    cases h
  · rw [hfind] at h
    exact ⟨none, i, rfl, Or.inl ⟨rfl, (Option.some.inj h).symm⟩⟩
  · rw [hfind] at h
    refine ⟨some entry, i, rfl, Or.inr ⟨entry, rfl, ?_⟩⟩
    dsimp only at h
    split_ifs at h with hlarge
    · exact Or.inl ⟨hlarge, (Option.some.inj h).symm⟩
    · obtain ⟨copies, hcopies, hrun⟩ := Option.map_eq_some_iff.mp h
      exact Or.inr ⟨Nat.le_of_not_lt hlarge, copies, hcopies, hrun.symm⟩

/-- If no read fails, the call is one of `readFile`. -/
theorem readWithin_of_succeeds (hpos : 1 ≤ fs.secPerClus) (hsec : fs.secPerClus < 256)
    (h : fs.readWithin f n dev path bufferSize baseCluster = some run)
    (hclean : ∀ j < run.reads, f.fails j = false) :
    fs.readFile dev path bufferSize baseCluster =
      (run.returned, run.copies.flatMap Copy.bytes) := by
  obtain ⟨found, i, hfind, hround⟩ := readWithin_cases h
  obtain ⟨rfl, rfl⟩ | ⟨entry, rfl, ⟨hlarge, rfl⟩ | ⟨hfits, copies, hcopies, rfl⟩⟩ := hround
  · rw [readFile, ← entryReads_of_succeeds hfind hclean]
    rfl
  · rw [readFile, ← entryReads_of_succeeds hfind hclean]
    exact if_pos hlarge
  · have hbytes := bytes_readRounds (fun _ => by rw [clusterBytes]; omega) hsec
      (by have := entry.fileSize_lt; omega) hclean hcopies le_rfl
    rw [readFile, ← entryReads_of_succeeds hfind fun j hj => hclean j (Nat.lt_add_right _ hj)]
    dsimp only
    rw [if_neg (Nat.not_lt.mpr hfits), hbytes]

/-- `ReadFile` ends, after as many clusters as the size has at most, and it writes to the buffer
from its start on without a gap, as far as the size at most and only if that is not larger than the
buffer. -/
theorem readFile_within_buffer (hpos : 1 ≤ fs.secPerClus) (hsec : fs.secPerClus < 256) (f : Faults)
    (dev : BlockDevice) (path : List Byte) (bufferSize baseCluster : Nat) :
    ∃ run : ReadRun,
      (∀ n > path.length, n > fs.clustersFor run.size →
        fs.readWithin f n dev path bufferSize baseCluster = some run) ∧
      run.copies.length ≤ fs.clustersFor run.size ∧
      (run.copies ≠ [] → run.size ≤ bufferSize) ∧
      Gapless fs.clusterBytes run.size 0 run.copies := by
  have hbytes : 0 < fs.clusterBytes := by
    rw [clusterBytes]
    omega
  obtain ⟨⟨found, i⟩, hfind⟩ := exists_entryReads fs f dev path baseCluster
  cases found with
  | none =>
    refine ⟨⟨none, 0, [], i⟩, fun n hn _ => ?_, Nat.zero_le _, fun h => absurd rfl h, Nat.zero_le _⟩
    rw [readWithin, hfind n hn]
  | some entry =>
    by_cases hlarge : entry.fileSize > bufferSize
    · refine ⟨⟨some entry, 0, [], i⟩, fun n hn _ => ?_, Nat.zero_le _, fun h => absurd rfl h,
        Nat.zero_le _⟩
      rw [readWithin, hfind n hn]
      exact if_pos hlarge
    · have hsize : 0 + entry.fileSize < 2 ^ 32 := by
        rw [Nat.zero_add]
        exact entry.fileSize_lt
      obtain ⟨copies, hcopies⟩ := @exists_readRounds fs f dev i entry.fileSize 0 entry.firstCluster
        hbytes hsec hsize
      have hcopy := hcopies _ (Nat.lt_succ_self _)
      have hgap := gapless_readRounds (fun _ => hbytes) hsec hsize hcopy
      rw [Nat.zero_add] at hgap
      refine ⟨⟨some entry, entry.fileSize, copies, i + 2 * copies.length⟩, fun n hn hn' => ?_,
        length_readRounds (fun _ => hbytes) hsec hsize hcopy, fun _ => Nat.le_of_not_lt hlarge,
        hgap⟩
      rw [readWithin, hfind n hn]
      dsimp only
      rw [if_neg hlarge, hcopies n hn', Option.map_some]

/-- `ReadFile` reports what it copied if and only if there is no file, or it is too large for the
buffer, or its chain has all its clusters and no device read fails. -/
theorem readFile_truthful_iff (hsec : fs.secPerClus < 256)
    (h : fs.readWithin f n dev path bufferSize baseCluster = some run) :
    run.Truthful f ↔ ∀ entry i, fs.entryReads f n dev path baseCluster = some (some entry, i) →
      entry.fileSize ≤ bufferSize →
        (entry.fileSize = 0 ∨ 1 ≤ fs.secPerClus) ∧
        (∀ j < i + 2 * fs.clustersFor entry.fileSize, f.fails j = false) ∧
        ∀ k < fs.clustersFor entry.fileSize,
          (fs.getNextCluster dev)^[k] entry.firstCluster < endOfChain := by
  obtain ⟨found, i, hfind, hround⟩ := readWithin_cases h
  rw [hfind]
  obtain ⟨rfl, rfl⟩ | ⟨entry, rfl, ⟨hlarge, rfl⟩ | ⟨hfits, copies, hcopies, rfl⟩⟩ := hround
  · refine ⟨fun _ entry i heq => ?_, fun _ => ⟨rfl, fun entry hentry => ?_⟩⟩
    · cases heq
    · cases hentry
  · refine ⟨fun _ entry' i' heq hfits => ?_, fun _ => ⟨rfl, fun entry' hentry _ => ?_⟩⟩
    · cases heq
      exact absurd hlarge (Nat.not_lt.mpr hfits)
    · cases hentry
      exact Nat.ne_of_lt (Nat.zero_lt_of_lt hlarge)
  · have hclean : (∀ entry' ∈ some entry, (∃ j < i + 2 * copies.length, f.fails j = true) →
        entry.fileSize ≠ entry'.fileSize) ↔ ∀ j < i + 2 * copies.length, f.fails j = false := by
      refine ⟨fun hfails j hj => ?_, fun hclean entry' _ hfails => ?_⟩
      · rw [← Bool.not_eq_true]
        exact fun hj' => hfails entry rfl ⟨j, hj, hj'⟩ rfl
      · obtain ⟨j, hj, hj'⟩ := hfails
        rw [hclean j hj] at hj'
        cases hj'
    have hsize : 0 + entry.fileSize < 2 ^ 32 := by
      rw [Nat.zero_add]
      exact entry.fileSize_lt
    rw [ReadRun.Truthful, hclean]
    by_cases hroom : entry.fileSize = 0 ∨ 1 ≤ fs.secPerClus
    · have hpos : 0 < entry.fileSize → 0 < fs.clusterBytes := by
        rw [clusterBytes]
        omega
      have hlen := length_readRounds hpos hsec hsize hcopies
      rw [copiedBytes_eq_iff hpos hsec hsize hcopies]
      refine ⟨fun hboth entry' i' heq _ => ?_, fun hcond => ?_⟩
      · cases heq
        obtain ⟨hall, hsucceeds⟩ := hboth
        have hchain := (length_readRounds_iff hpos hsec hsize hsucceeds hcopies).mp hall
        rw [hall] at hsucceeds
        exact ⟨hroom, hsucceeds, hchain⟩
      · obtain ⟨-, hsucceeds, hchain⟩ := hcond entry i rfl hfits
        have hmade : ∀ j < i + 2 * copies.length, f.fails j = false :=
          fun j hj => hsucceeds j (by omega)
        exact ⟨(length_readRounds_iff hpos hsec hsize hmade hcopies).mpr hchain, hmade⟩
    · refine iff_of_false (fun hall => hroom ?_) (fun hcond => hroom (hcond entry i rfl hfits).1)
      have hbytes : fs.clusterBytes = 0 := by
        rw [clusterBytes]
        omega
      have hcopied := copiedBytes_readRounds hsec hsize hcopies
      rw [hbytes, Nat.mul_zero, Nat.min_zero, hall.1] at hcopied
      exact Or.inl hcopied

end Call

/-- Every device read succeeds. -/
def noFaults : Faults := ⟨fun _ => false, fun _ _ => 0⟩

/-- The file `A` is read into a buffer of three bytes. -/
theorem readFile_within_small : ∃ run : ReadRun,
    (∀ n > [0x61#8].length, n > smallVolume.clustersFor run.size →
      smallVolume.readWithin noFaults n oneFileDisk [0x61#8] 3 0 = some run) ∧
    run.copies.length ≤ smallVolume.clustersFor run.size ∧
    (run.copies ≠ [] → run.size ≤ 3) ∧ Gapless smallVolume.clusterBytes run.size 0 run.copies :=
  readFile_within_buffer (by decide) (by decide) noFaults oneFileDisk [0x61#8] 3 0

/-- The file `A` of three bytes has its cluster, and what is reported is what is copied. -/
theorem readFile_truthful_small : ∃ run,
    smallVolume.readWithin noFaults 2 oneFileDisk [0x61#8] 3 0 = some run ∧
    run.Truthful noFaults := by
  have heval : (smallVolume.entryReads noFaults 2 oneFileDisk [0x61#8] 0).map (fun r =>
        r.1.map fun e => (e.fileSize, e.firstCluster)) = some (some (3, 3)) ∧
      (smallVolume.readWithin noFaults 2 oneFileDisk [0x61#8] 3 0).isSome := by
    decide +kernel
  obtain ⟨run, hrun⟩ := Option.isSome_iff_exists.mp heval.2
  refine ⟨run, hrun, (readFile_truthful_iff (by decide) hrun).mpr fun entry i hentry _ => ?_⟩
  rw [hentry] at heval
  have hfile : entry.fileSize = 3 ∧ entry.firstCluster = 3 := by simpa using heval.1
  rw [hfile.1, hfile.2]
  have hone : smallVolume.clustersFor 3 = 1 := by decide
  refine ⟨Or.inr (by decide), fun _ _ => rfl, fun k hk => ?_⟩
  obtain rfl : k = 0 := by omega
  decide

/-- The root directory has a file `A` of 600 bytes, with a chain of one cluster. -/
def shortDisk : Disk := fun lba k =>
  if lba < 2 then
    ([0xF8#8, 0xFF#8, 0xFF#8, 0x0F#8, 0xFF#8, 0xFF#8, 0xFF#8, 0x0F#8, 0xFF#8, 0xFF#8, 0xFF#8,
      0x0F#8,
      0xFF#8, 0xFF#8, 0xFF#8, 0x0F#8] : List Byte).getD k 0
  else if lba = 2 then (DirectoryEntry.create (to83Format [0x61#8]) 3 600 0x20#8).getD k 0
  else 0

/-- The size is returned where the chain ends before it, and where the only read of the data
fails. -/
theorem readFile_reports_too_much :
    (∃ run, smallVolume.readWithin noFaults 4 ⟨shortDisk, []⟩ [0x61#8] 600 0 = some run ∧
      run.returned = 600 ∧ copiedBytes run.copies = 512 ∧ ¬run.Truthful noFaults) ∧
    ∃ run, smallVolume.readWithin ⟨fun i => i == 1, fun _ _ => 0⟩ 2 oneFileDisk [0x61#8] 3 0 =
        some run ∧ run.returned = 3 ∧ ¬run.Truthful ⟨fun i => i == 1, fun _ _ => 0⟩ := by
  have heval : (smallVolume.readWithin noFaults 4 ⟨shortDisk, []⟩ [0x61#8] 600 0).map (fun run =>
        (run.returned, copiedBytes run.copies)) = some (600, 512) ∧
      (smallVolume.readWithin ⟨fun i => i == 1, fun _ _ => 0⟩ 2 oneFileDisk [0x61#8] 3 0).map
        (fun run => (run.returned, run.entry.map DirectoryEntry.fileSize, run.reads)) =
          some (3, some 3, 3) := by
    decide +kernel
  obtain ⟨⟨run, hrun, hshort⟩, run', hrun', hfails⟩ :=
    heval.imp Option.map_eq_some_iff.mp Option.map_eq_some_iff.mp
  simp only [Prod.mk.injEq] at hshort hfails
  obtain ⟨entry, hentry, hsize⟩ := Option.map_eq_some_iff.mp hfails.2.1
  refine ⟨⟨run, hrun, hshort.1, hshort.2, fun h => ?_⟩, run', hrun', hfails.1, fun h => ?_⟩
  · have := h.1
    omega
  · refine h.2 entry hentry ⟨1, ?_, rfl⟩ ?_
    · rw [hfails.2.2]
      decide
    · rw [hfails.1, hsize]

end Sylphia
