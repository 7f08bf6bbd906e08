import Sylphia.Disk.Layout
import Sylphia.Fat.ReadFile

/-!
# The data loops under any boot sector

`Initialize` takes the cluster size from the medium as it is. Here `WriteFile`, `AppendFile` and
`ReadFile` are run for what they divide by and for the values of `bytes_remaining`, in 32 bits,
each time the condition of their data loop is looked at; a loop is given a number of rounds.
-/

namespace Sylphia

open Bytes WriteLog

/-- What a call divides by, and `bytes_remaining` at each look at the condition of its data
loop. -/
structure SizeTrace where
  divisors : List Nat
  remaining : List Nat

/-- The call does not divide by zero, and each round of its data loop that leads to another look
at the condition has reduced `bytes_remaining`. -/
def SizeTrace.Reduces (t : SizeTrace) : Prop :=
  (∀ d ∈ t.divisors, d ≠ 0) ∧ t.remaining.IsChain (· > ·)

/-- The difference of two 32-bit numbers. -/
def sub32 (a b : Nat) : Nat := (a + 2 ^ 32 - b) % 2 ^ 32

/-- `bytes_remaining` in a loop that takes away a cluster in each round, or the rest if that is
less. The body is given the length, and leaves the loop early with `none`. -/
def remainingValues {σ : Type*} (clusterBytes : Nat) (body : σ → Nat → Option σ) :
    Nat → σ → Nat → List Nat
  | 0, _, _ => []
  | n + 1, s, remaining =>
    remaining ::
      if remaining = 0 then []
      else
        let len := if remaining > clusterBytes then clusterBytes else remaining
        match body s len with
        | none => []
        | some s => remainingValues clusterBytes body n s (sub32 remaining len)

/-- The variables of the loop of `WriteFile` next to `bytes_remaining`. -/
structure WriteState where
  dev : BlockDevice
  offset : Nat
  first : Nat
  prev : Nat

/-- The variables of the loop of `AppendFile`. -/
structure AppendState where
  dev : BlockDevice
  offset : Nat
  prev : Nat

/-- The variables of the loop of `ReadFile`, with the bytes copied. -/
structure ReadState where
  current : Nat
  offset : Nat
  out : List Byte

/-- A call that has a data loop. -/
inductive DataCall
  | readFile (path : List Byte) (bufferSize baseCluster : Nat)
  | writeFile (name : List Byte) (data : Buffer) (size : Fin (2 ^ 32)) (parentCluster : Nat)
  | appendFile (name : CString) (data : Buffer) (size : Fin (2 ^ 32)) (parentCluster : Nat)

namespace FAT32Driver

/-- `cluster_size_bytes`. -/
def clusterSizeBytes (fs : FAT32Driver) : Nat := fs.secPerClus * 512 % 2 ^ 32

/-- A round of `WriteFile`; it ends the loop when the disk is full. -/
def writeRound (fs : FAT32Driver) (data : Buffer) (s : WriteState) (len : Nat) :
    Option WriteState :=
  let (current, dev) := fs.allocateCluster s.dev
  if current = 0 then none
  else
    let dev := if s.first = 0 then dev else fs.linkCluster dev s.prev current
    let dev := BlockDevice.writeSectors dev (fs.clusterToLBA current)
      (dataBuffer data s.offset len) fs.secPerClus
    some ⟨dev, (s.offset + len) % 2 ^ 32, if s.first = 0 then current else s.first, current⟩

/-- A round of `AppendFile`. -/
def appendRound (fs : FAT32Driver) (data : Buffer) (s : AppendState) (len : Nat) :
    Option AppendState :=
  let (newCluster, dev) := fs.allocateCluster s.dev
  if newCluster = 0 then none
  else
    let dev := fs.linkCluster dev s.prev newCluster
    let dev := BlockDevice.writeSectors dev (fs.clusterToLBA newCluster)
      (dataBuffer data s.offset len) fs.secPerClus
    some ⟨dev, (s.offset + len) % 2 ^ 32, newCluster⟩

/-- A round of `ReadFile`, whose loop ends at the end mark of the chain too. -/
def readRound (fs : FAT32Driver) (dev : BlockDevice) (s : ReadState) (len : Nat) :
    Option ReadState :=
  if s.current < endOfChain then
    let temp := BlockDevice.read dev (fs.clusterToLBA s.current)
    some ⟨fs.getNextCluster dev s.current, (s.offset + len) % 2 ^ 32, s.out ++ slice temp 0 len⟩
  else none

/-- `WriteFile`, within `n` rounds. -/
def writeSizes (fs : FAT32Driver) (n : Nat) (dev : BlockDevice) (data : Buffer) (size : Nat) :
    SizeTrace :=
  if size = 0 then ⟨[], []⟩
  else ⟨[], remainingValues fs.clusterSizeBytes (fs.writeRound data) n ⟨dev, 0, 0, 0⟩ size⟩

/-- `AppendFile` from the last cluster of the file on. -/
def appendSizes (fs : FAT32Driver) (n : Nat) (dev : BlockDevice) (data : Buffer)
    (size oldSize lastCluster : Nat) : SizeTrace :=
  let clusterBytes := fs.clusterSizeBytes
  let used := oldSize % clusterBytes
  let used := if used = 0 ∧ oldSize > 0 then clusterBytes else used
  let free := if oldSize = 0 then clusterBytes else sub32 clusterBytes used
  let fits := free > 0 ∧ oldSize > 0
  let len := if size > free then free else size
  let dev :=
    if fits then
      let lba := fs.clusterToLBA lastCluster
      let buf := splice (BlockDevice.read dev lba) used (slice data 0 len)
      BlockDevice.writeSectors dev lba buf fs.secPerClus
    else dev
  let offset := if fits then len else 0
  ⟨[clusterBytes], remainingValues clusterBytes (fs.appendRound data) n
    ⟨dev, offset, lastCluster⟩ (sub32 size offset)⟩

/-- A call, with `n` rounds for each loop that the source does not bound. -/
def sizes (fs : FAT32Driver) (n : Nat) (dev : BlockDevice) : DataCall → SizeTrace
  | .readFile path bufferSize baseCluster =>
    match fs.getFileEntry dev path baseCluster with
    | none => ⟨[], []⟩
    | some entry =>
      if entry.fileSize > bufferSize then ⟨[], []⟩
      else ⟨[], remainingValues fs.clusterSizeBytes (fs.readRound dev) n
        ⟨entry.firstCluster, 0, []⟩ entry.fileSize⟩
  | .writeFile _ data size _ => fs.writeSizes n dev data size
  | .appendFile name data size parentCluster =>
    if size.val = 0 then ⟨[], []⟩
    else
      match fs.findDirectoryEntry dev name.chars (fs.directoryOf parentCluster) with
      | none => fs.writeSizes n dev data size
      | some entry =>
        if entry.firstCluster = 0 then
          let (first, dev) := fs.allocateCluster dev
          if first = 0 then ⟨[], []⟩ else fs.appendSizes n dev data size entry.fileSize first
        else
          match fs.lastLoop dev n entry.firstCluster with
          | none => ⟨[], []⟩
          | some last => fs.appendSizes n dev data size entry.fileSize last

/-- A call divides by no zero and reduces `bytes_remaining` in each round, however long it
runs. -/
def Reduces (fs : FAT32Driver) (dev : BlockDevice) (call : DataCall) : Prop :=
  ∀ n, (fs.sizes n dev call).Reduces

/-- A call writes, and the first sector of the FAT has a free entry for it. -/
def TakesCluster (fs : FAT32Driver) (dev : BlockDevice) : DataCall → Prop
  | .readFile _ _ _ => False
  | .writeFile _ _ size _ | .appendFile _ _ size _ =>
    size.val ≠ 0 ∧ ∃ i, 2 ≤ i ∧ i < 128 ∧ fatEntry (dev.store fs.fatStartLba) i = 0

end FAT32Driver

open FAT32Driver

section Rounds

variable {σ : Type*} {clusterBytes n remaining : Nat} {body : σ → Nat → Option σ} {s s' : σ}

theorem sub32_lt (hlen : 0 < clusterBytes) (hle : clusterBytes ≤ remaining)
    (hlt : remaining < 2 ^ 32) : sub32 remaining clusterBytes < remaining := by
  rw [sub32]
  omega

theorem mem_head?_remainingValues {x : Nat}
    (h : x ∈ (remainingValues clusterBytes body n s remaining).head?) : x = remaining := by
  cases n with
  | zero => exact absurd h (Option.not_mem_none x)
  | succ n => exact (Option.mem_some.mp h).symm

/-- Each round takes away what fits in a cluster. -/
theorem isChain_remainingValues (hpos : 0 < clusterBytes) (hlt : remaining < 2 ^ 32) :
    (remainingValues clusterBytes body n s remaining).IsChain (· > ·) := by
  induction n generalizing s remaining with
  | zero => exact List.isChain_nil
  | succ n ih =>
    rw [remainingValues]
    split
    · exact List.isChain_singleton _
    · rename_i hne
      dsimp only
      set len := if remaining > clusterBytes then clusterBytes else remaining with hlen
      have hsub : sub32 remaining len < remaining := by
        refine sub32_lt ?_ ?_ hlt <;> rw [hlen] <;> split <;> omega
      cases body s len with
      | none => exact List.isChain_singleton _
      | some s' =>
        refine List.isChain_cons.mpr ⟨fun x hx => ?_, ih (hsub.trans hlt)⟩
        rw [mem_head?_remainingValues hx]
        exact hsub

/-- Without a cluster size the first round that goes through leaves what there was. -/
theorem not_isChain_remainingValues (hbody : body s 0 = some s') (hpos : 0 < remaining)
    (hlt : remaining < 2 ^ 32) :
    ¬ (remainingValues 0 body 2 s remaining).IsChain (· > ·) := by
  have hsub : sub32 remaining 0 = remaining := by
    rw [sub32]
    omega
  have htwo : remainingValues 0 body 2 s remaining =
      [remaining, remaining] := by
    rw [remainingValues, if_neg hpos.ne', if_pos hpos]
    dsimp only
    rw [hbody]
    dsimp only
    rw [hsub, remainingValues, if_neg hpos.ne', if_pos hpos]
    dsimp only
    cases body s' 0 with
    | none => rfl
    | some _ => rfl
  rw [htwo, List.isChain_pair]
  exact lt_irrefl _

end Rounds

/-! ## A volume without a cluster size -/

section Calls

variable {fs : FAT32Driver} {dev : BlockDevice} {data : Buffer} {n size c : Nat} {name : List Byte}

/-- A directory without slots has no entry. -/
theorem findLoop_no_slots (hsec : fs.secPerClus = 0) : fs.findLoop dev name n c = none := by
  have hslots : fs.slotsPerCluster = 0 := by rw [slotsPerCluster, hsec]
  induction n generalizing c with
  | zero => rfl
  | succ n ih =>
    rw [findLoop, hslots, ih]
    exact ite_self _

theorem findDirectoryEntry_no_slots (hsec : fs.secPerClus = 0) :
    fs.findDirectoryEntry dev name c = none := by
  rw [findDirectoryEntry, findSlot, findLoop_no_slots hsec]
  rfl

theorem resolveLoop_no_slots (hsec : fs.secPerClus = 0) (path : List Byte) :
    fs.resolveLoop dev n path c = none := by
  cases n with
  | zero => rfl
  | succ n =>
    simp only [resolveLoop, findSlot, findLoop_no_slots hsec, ite_self]

theorem getFileEntry_no_slots (hsec : fs.secPerClus = 0) (path : List Byte) :
    fs.getFileEntry dev path c = none := by
  rw [getFileEntry, resolve, resolveLoop_no_slots hsec, resolveLoop_no_slots hsec, ite_self]
  rfl

/-- `AllocateCluster` finds a cluster exactly when the first sector has a free entry. -/
theorem allocateCluster_ne_zero_iff : (fs.allocateCluster dev).1 ≠ 0 ↔
    ∃ i, 2 ≤ i ∧ i < 128 ∧ fatEntry (dev.store fs.fatStartLba) i = 0 := by
  have hread {i : Nat} (hi : i < 128) : fatEntry (BlockDevice.read dev fs.fatStartLba) i =
      fatEntry (dev.store fs.fatStartLba) i := fieldAt_read dev fs.fatStartLba (by omega)
  rw [allocateCluster]
  dsimp only
  cases hfind : (List.range' 2 126).find?
      fun i => fatEntry (BlockDevice.read dev fs.fatStartLba) i == 0 with
  | none =>
    refine ⟨fun hne => absurd rfl hne, fun hfree => ?_⟩
    obtain ⟨i, h2, h128, h0⟩ := hfree
    have hnot := List.find?_eq_none.mp hfind i (List.mem_range'_1.mpr ⟨h2, by omega⟩)
    rw [hread h128, h0] at hnot
    exact absurd rfl hnot
  | some i =>
    have hmem := List.mem_range'_1.mp (List.mem_of_find?_eq_some hfind)
    have h0 := (List.find?_eq_some_iff_append.mp hfind).1
    rw [beq_iff_eq, hread (by omega)] at h0
    exact ⟨fun _ => ⟨i, hmem.1, by omega, h0⟩, fun _ => (by omega : i ≠ 0)⟩

theorem reduces_nil : SizeTrace.Reduces ⟨[], []⟩ :=
  ⟨fun _ hd => absurd hd List.not_mem_nil, List.isChain_nil⟩

/-- A `WriteFile` without a cluster size reduces nothing exactly when it gets a cluster. -/
theorem writeSizes_reduces_iff (hsize : size < 2 ^ 32) :
    (∀ n, (fs.writeSizes n dev data size).Reduces) ↔ fs.clusterSizeBytes ≠ 0 ∨
      ¬ (size ≠ 0 ∧ ∃ i, 2 ≤ i ∧ i < 128 ∧ fatEntry (dev.store fs.fatStartLba) i = 0) := by
  rw [← allocateCluster_ne_zero_iff]
  constructor
  · intro hred
    by_contra hnot
    obtain ⟨hzero, hne, halloc⟩ : fs.clusterSizeBytes = 0 ∧ size ≠ 0 ∧
        (fs.allocateCluster dev).1 ≠ 0 := by
      rw [not_or, not_not, not_not] at hnot
      exact hnot
    have hchain := (hred 2).2
    rw [writeSizes, if_neg hne, hzero] at hchain
    obtain ⟨s', hbody⟩ : ∃ s', fs.writeRound data ⟨dev, 0, 0, 0⟩ 0 = some s' := by
      rw [writeRound]
      dsimp only
      rw [if_neg halloc]
      exact ⟨_, rfl⟩
    exact not_isChain_remainingValues hbody (Nat.pos_of_ne_zero hne) hsize hchain
  · intro h n
    rw [writeSizes]
    split
    · exact reduces_nil
    · rename_i hne
      refine ⟨fun d hd => absurd hd List.not_mem_nil, ?_⟩
      rcases h with hpos | hfull
      · exact isChain_remainingValues (Nat.pos_of_ne_zero hpos) hsize
      · -- The disk is full: there is one look at the condition.
        have halloc : (fs.allocateCluster dev).1 = 0 := by
          by_contra halloc
          exact hfull ⟨hne, halloc⟩
        cases n with
        | zero => exact List.isChain_nil
        | succ n =>
          have hbody (len : Nat) : fs.writeRound data ⟨dev, 0, 0, 0⟩ len = none := by
            rw [writeRound]
            dsimp only
            rw [if_pos halloc]
          rw [remainingValues, if_neg hne]
          dsimp only
          rw [hbody]
          exact List.isChain_singleton _

/-- With a cluster size an append divides by it, and its loop reduces what is left. -/
theorem appendSizes_reduces {oldSize last : Nat} (hpos : fs.clusterSizeBytes ≠ 0) :
    (fs.appendSizes n dev data size oldSize last).Reduces := by
  refine ⟨fun d hd => ?_, ?_⟩
  · rw [List.mem_singleton.mp hd]
    exact hpos
  · exact isChain_remainingValues (Nat.pos_of_ne_zero hpos) (Nat.mod_lt _ (by decide))

/-- With a cluster size every call reduces. -/
theorem reduces_of_clusterSize (hpos : fs.clusterSizeBytes ≠ 0) (call : DataCall) :
    fs.Reduces dev call := by
  have hwrite (data : Buffer) (size : Fin (2 ^ 32)) :
      ∀ n, (fs.writeSizes n dev data size).Reduces :=
    (writeSizes_reduces_iff size.isLt).mpr (Or.inl hpos)
  intro n
  cases call with
  | readFile path bufferSize baseCluster =>
    rw [sizes]
    cases fs.getFileEntry dev path baseCluster with
    | none => exact reduces_nil
    | some entry =>
      dsimp only
      split
      · exact reduces_nil
      · exact ⟨fun d hd => absurd hd List.not_mem_nil,
          isChain_remainingValues (Nat.pos_of_ne_zero hpos) entry.fileSize_lt⟩
  | writeFile name data size parentCluster => exact hwrite data size n
  | appendFile name data size parentCluster =>
    rw [sizes]
    split
    · exact reduces_nil
    · split
      · exact hwrite data size n
      · dsimp only
        split
        · split
          · exact reduces_nil
          · exact appendSizes_reduces hpos
        · split
          · exact reduces_nil
          · exact appendSizes_reduces hpos

/-- Without slots in its directories a volume has its calls get to `WriteFile` or to nothing. -/
theorem reduces_iff_of_no_slots (hsec : fs.secPerClus = 0) (call : DataCall) :
    fs.Reduces dev call ↔ ¬ fs.TakesCluster dev call := by
  have hzero : fs.clusterSizeBytes = 0 := by
    rw [clusterSizeBytes, hsec, Nat.zero_mul, Nat.zero_mod]
  have hwrite (data : Buffer) (size : Fin (2 ^ 32)) :=
    @writeSizes_reduces_iff fs dev data size size.isLt
  simp only [hzero, ne_eq, not_true_eq_false, false_or] at hwrite
  cases call with
  | readFile path bufferSize baseCluster =>
    refine iff_of_true (fun n => ?_) not_false
    rw [sizes, getFileEntry_no_slots hsec]
    exact reduces_nil
  | writeFile name data size parentCluster => exact hwrite data size
  | appendFile name data size parentCluster =>
    refine Iff.trans (forall_congr' fun n => ?_) (hwrite data size)
    rw [sizes, findDirectoryEntry_no_slots hsec]
    by_cases h0 : size.val = 0
    · rw [if_pos h0, writeSizes, if_pos h0]
    · rw [if_neg h0]

/-- The volume of a boot sector: a call reduces `bytes_remaining` in each round, and does not
divide by zero, unless the sector has 0 for the sectors of a cluster and the call gets to take
a cluster. -/
theorem dataLoops_reduce_iff (boot : BlockDevice) (partLba : Nat) (dev : BlockDevice)
    (call : DataCall) :
    (initializeFrom boot partLba).Reduces dev call ↔ Bpb.secPerClus (boot.store partLba) ≠ 0 ∨
      ¬ (initializeFrom boot partLba).TakesCluster dev call := by
  have hsec : (initializeFrom boot partLba).secPerClus = Bpb.secPerClus (boot.store partLba) :=
    fieldAt_read boot partLba (by decide)
  have hlt : Bpb.secPerClus (boot.store partLba) < 256 := by
    rw [Bpb.secPerClus, Packed.fieldAt]
    exact (ofLE_lt _).trans_eq (by rw [length_slice, pow_one])
  by_cases h0 : Bpb.secPerClus (boot.store partLba) = 0
  · rw [reduces_iff_of_no_slots (hsec.trans h0), or_iff_right (not_not.mpr h0)]
  · refine iff_of_true (reduces_of_clusterSize ?_ call) (Or.inl h0)
    rw [clusterSizeBytes, hsec]
    omega

/-- A stick with a signed boot sector that has 0 for the sectors of a cluster, and an empty
FAT. -/
def unsizedStick : BlockDevice :=
  ⟨fun lba k =>
    if lba = 2048 then
      match k with
      | 12 => 2
      | 14 => 32
      | 16 => 2
      | 36 => 1
      | 44 => 2
      | 510 => 0x55
      | 511 => 0xAA
      | _ => 0
    else 0, []⟩

/-- A byte that is written to it is still to be written after the first round. -/
theorem unsizedStick_not_reduces : ¬ (initializeFrom unsizedStick 2048).Reduces unsizedStick
    (.writeFile [0x41#8] (fun _ => 0) 1 0) := by
  intro hred
  have hone : ((initializeFrom unsizedStick 2048).sizes 2 unsizedStick
      (.writeFile [0x41#8] (fun _ => 0) 1 0)).remaining = [1, 1] := by
    decide +kernel
  have hchain := (hred 2).2
  rw [hone, List.isChain_pair] at hchain
  exact lt_irrefl 1 hchain

end Calls

end Sylphia
