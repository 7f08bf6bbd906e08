import Sylphia.Core.Reader
import Sylphia.Fat.CopyFile
import Sylphia.Sys.Write

/-!
# Open files

`Open` makes a `FileFD`, which reads the whole file into a buffer of at most 64 KiB; `Read` hands
the bytes of the buffer out one after the other. `ReadFile` gives nothing of a file for which the
buffer is too small.
-/

namespace Sylphia

open Bytes WriteLog Chain FAT32Driver

namespace FileFD

/-- `kMaxFileSize`. -/
def maxFileSize : Nat := 64 * 1024

/-- A descriptor that cannot be read. -/
def invalid : FileFD := ⟨none, 0, 0, false⟩

/-- The constructor, with `g_fat32_driver` if there is one; `memory` is what `Allocate` returns. -/
def create (driver : Option FAT32Driver) (dev : BlockDevice) (path : List Byte)
    (memory : Option Buffer) : FileFD :=
  match driver with
  | none => invalid
  | some fs =>
    let fileSize := fs.getFileSize dev path
    if fileSize = 0 then invalid
    else
      let fileSize := if fileSize > maxFileSize then maxFileSize else fileSize
      match memory with
      | none => invalid
      | some buffer =>
        let (readBytes, copied) := fs.readFile dev path fileSize 0
        if readBytes > 0 then ⟨some (splice buffer 0 copied), readBytes, 0, true⟩ else invalid

/-- `Read`: the descriptor afterwards, the result and the bytes that are copied out. -/
def read (fd : FileFD) (len : Nat) : FileFD × Int × List Byte :=
  match fd.buffer with
  | none => (fd, -1, [])
  | some buffer =>
    if fd.valid then
      let remaining := (fd.fileSize + 2 ^ 32 - fd.readPos) % 2 ^ 32
      if remaining = 0 then (fd, 0, [])
      else
        let toRead := if len > remaining then remaining else len
        ({ fd with readPos := (fd.readPos + toRead) % 2 ^ 32 }, FileDescriptor.toInt toRead,
          slice buffer fd.readPos toRead)
    else (fd, -1, [])

/-- Reads of these lengths, with the bytes of each. -/
def reads (fd : FileFD) : List Nat → FileFD × List (List Byte)
  | [] => (fd, [])
  | len :: lens =>
    ((reads (fd.read len).1 lens).1, (fd.read len).2.2 :: (reads (fd.read len).1 lens).2)

end FileFD

namespace Descriptors

/-- The first free number from 3 on. -/
def freeNumber (d : Descriptors) : Option Nat :=
  (List.range' 3 13).find? fun fd => (d.fds fd).isNone

/-- The system call `Open`. -/
def sysOpen (d : Descriptors) (driver : Option FAT32Driver) (dev : BlockDevice)
    (path : List Byte) (memory : Option Buffer) : Descriptors × Int :=
  match d.freeNumber with
  | none => (d, -1)
  | some n =>
    let fd := FileFD.create driver dev path memory
    if fd.valid then ({ d with fds := Function.update d.fds n (some (.file fd)) }, n) else (d, -1)

end Descriptors

/-- The path is that of a file of the volume, and `c` is in its clusters. -/
def FileAt (fs : FAT32Driver) (dev : BlockDevice) (path c : List Byte) : Prop :=
  ∃ s, fs.resolve dev path 0 = some s ∧ Listed fs (fs.view dev.store) s ∧
    ((fs.view dev.store).entry s).isDirectory = false ∧
    ((fs.view dev.store).entry s).fileSize = c.length ∧
    ∀ cs, ClusterChain fs (fs.view dev.store) ((fs.view dev.store).entry s).firstCluster cs →
      Stored fs (fs.view dev.store) (fun k => c.getD k 0) c.length cs

/-- After reads of any lengths, what was delivered is the beginning of `c`, the next read delivers
as many bytes as are asked for or left, and it returns 0 when everything was delivered. -/
def FileFD.Delivers (fd : FileFD) (c : List Byte) : Prop :=
  ∀ lens len, let delivered := (fd.reads lens).2.flatten
    delivered <+: c ∧
      ((fd.reads lens).1.read len).2.1 = (min len (c.length - delivered.length) : Nat) ∧
      ((fd.reads lens).1.read len).2.2.length = min len (c.length - delivered.length) ∧
      (0 < len → (((fd.reads lens).1.read len).2.1 = 0 ↔ delivered = c))

/-- `Open` succeeds, and the descriptor delivers the first 64 KiB of `c`. -/
def OpensFor (d : Descriptors) (driver : Option FAT32Driver) (dev : BlockDevice)
    (path : List Byte) (memory : Option Buffer) (c : List Byte) : Prop :=
  ∃ n : Nat, ∃ fd, (d.sysOpen driver dev path memory).2 = n ∧
    (d.sysOpen driver dev path memory).1.fds n = some (.file fd) ∧ fd.Delivers (c.take 65536)

theorem take_slice (buf : Buffer) (off n k : Nat) :
    (slice buf off n).take k = slice buf off (min k n) := by
  refine List.ext_getElem? fun i => ?_
  rw [List.getElem?_take, getElem?_slice, getElem?_slice]
  split_ifs <;> first | rfl | omega

theorem drop_slice (buf : Buffer) (off n k : Nat) :
    (slice buf off n).drop k = slice buf (off + k) (n - k) := by
  refine List.ext_getElem? fun i => ?_
  rw [List.getElem?_drop, getElem?_slice, getElem?_slice, Nat.add_assoc]
  split_ifs <;> first | rfl | omega

/-- The rest of the buffer from the position on. -/
structure FileFD.Holds (fd : FileFD) (rest : List Byte) : Prop where
  valid : fd.valid = true
  buffer : ∃ buffer, fd.buffer = some buffer ∧ slice buffer fd.readPos rest.length = rest
  size : fd.readPos + rest.length = fd.fileSize
  small : fd.fileSize ≤ 65536

namespace FileFD

variable {fd : FileFD} {rest c : List Byte}

theorem toInt_of_lt {n : Nat} (h : n < 2 ^ 31) : FileDescriptor.toInt n = n := by
  rw [FileDescriptor.toInt, BitVec.toInt_ofNat', Int.bmod]
  omega

/-- A read takes as much of the rest as it is asked for. -/
theorem Holds.read (h : fd.Holds rest) (len : Nat) :
    (fd.read len).1.Holds (rest.drop len) ∧ (fd.read len).2.1 = (min len rest.length : Nat) ∧
      (fd.read len).2.2 = rest.take len := by
  obtain ⟨buffer, hbuffer, hslice⟩ := h.buffer
  have hsize := h.size
  have hsmall := h.small
  have hremaining : (fd.fileSize + 2 ^ 32 - fd.readPos) % 2 ^ 32 = rest.length := by omega
  have hmin : (if len > rest.length then rest.length else len) = min len rest.length := by
    split <;> omega
  rw [FileFD.read, hbuffer]
  simp only
  rw [if_pos h.valid, hremaining]
  by_cases hzero : rest.length = 0
  · obtain rfl := List.eq_nil_of_length_eq_zero hzero
    rw [if_pos hzero, List.drop_nil, List.take_nil]
    exact ⟨h, by simp, rfl⟩
  · rw [if_neg hzero, hmin]
    have hlow : fd.readPos + min len rest.length < 2 ^ 32 := by omega
    refine ⟨⟨h.valid, ⟨buffer, rfl, ?_⟩, ?_, hsmall⟩, toInt_of_lt (by omega), ?_⟩
    · simp only
      rw [Nat.mod_eq_of_lt hlow, List.length_drop]
      by_cases hle : len ≤ rest.length
      · have hdrop := drop_slice buffer fd.readPos rest.length len
        rw [hslice] at hdrop
        rw [Nat.min_eq_left hle, hdrop]
      · rw [Nat.sub_eq_zero_of_le (by omega), List.drop_eq_nil_of_le (by omega)]
        rfl
    · simp only
      rw [Nat.mod_eq_of_lt hlow, List.length_drop]
      omega
    · have htake := take_slice buffer fd.readPos rest.length len
      rw [hslice] at htake
      exact htake.symm

/-- Reads take the rest apart. -/
theorem Holds.reads (h : fd.Holds rest) (lens : List Nat) :
    (fd.reads lens).2 = (Reader.reads rest lens).1 ∧
      (fd.reads lens).1.Holds (Reader.reads rest lens).2 := by
  induction lens generalizing fd rest with
  | nil => exact ⟨rfl, h⟩
  | cons len lens ih =>
    obtain ⟨hnext, -, hbytes⟩ := h.read len
    obtain ⟨hchunks, hend⟩ := ih hnext
    refine ⟨?_, hend⟩
    rw [FileFD.reads, Reader.reads, hbytes, hchunks]

theorem Holds.delivers (h : fd.Holds c) : fd.Delivers c := by
  intro lens len
  obtain ⟨hchunks, hrest⟩ := h.reads lens
  obtain ⟨-, hcount, hbytes⟩ := hrest.read len
  have hwhole := Reader.flatten_reads c lens
  have hleft := Reader.length_left c lens
  simp only
  rw [hchunks, hcount, hbytes, ← hleft, List.length_take]
  refine ⟨⟨_, hwhole⟩, rfl, rfl, fun hlen => ?_⟩
  rw [Nat.cast_eq_zero]
  constructor
  · intro hzero
    have hnil : (Reader.reads c lens).2 = [] := List.eq_nil_of_length_eq_zero (by omega)
    rw [hnil, List.append_nil] at hwhole
    exact hwhole
  · intro hall
    have hlength := congrArg List.length hall
    omega

end FileFD

section Opening

variable {fs : FAT32Driver} {dev : BlockDevice} {path c : List Byte}

theorem slice_getD (c : List Byte) : slice (fun k => c.getD k 0) 0 c.length = c := by
  refine List.ext_getElem? fun i => ?_
  rw [getElem?_slice, Nat.zero_add]
  split
  · next hi => rw [List.getD_eq_getElem?_getD, List.getElem?_eq_getElem hi, Option.getD_some]
  · next hi => rw [List.getElem?_eq_none (by omega)]

/-- `ReadFile` gives all of a file or nothing. -/
theorem FileAt.readFile (hgeo : Geometry fs) (h : WellFormed fs dev.store)
    (hfile : FileAt fs dev path c) (hne : c ≠ []) :
    fs.getFileSize dev path = c.length ∧
      ∀ n, fs.readFile dev path n 0 = if c.length > n then (0, []) else (c.length, c) := by
  obtain ⟨s, hpath, hlist, hregular, hsize, hstored⟩ := hfile
  obtain ⟨d, ds, -, hc, hlive, -⟩ := id hlist
  have hpos : 0 < ((fs.view dev.store).entry s).fileSize :=
    hsize ▸ List.length_pos_iff.mpr hne
  have h0 := h.sound.sized s hlist hregular hpos
  obtain ⟨cs, hcs⟩ := h.sound.chains (.slot s) _ ⟨hlist, rfl, h0⟩
  have hlen := h.exact s cs hlist hregular hpos hcs
  have hentry : fs.getFileEntry dev path 0 = some ((fs.view dev.store).entry s) := by
    rw [getFileEntry, hpath, Option.map_some, slotEntry_eq hc (live_subset _ _ s hlive)]
  have hloop := readLoop_stored hgeo hcs (hsize ▸ hlen.ge) (hstored cs hcs) (Nat.le_refl _)
  refine ⟨?_, fun n => ?_⟩
  · rw [getFileSize, hentry]
    exact hsize
  · rw [FAT32Driver.readFile, hentry]
    simp only
    rw [hsize, hloop, slice_getD]

/-- The constructor succeeds for what fits into the buffer, if there is memory for it. -/
theorem FileAt.create (hgeo : Geometry fs) (h : WellFormed fs dev.store)
    (hfile : FileAt fs dev path c) (hne : c ≠ []) (memory : Option Buffer) :
    if c.length ≤ 65536 ∧ memory ≠ none then
      (FileFD.create (some fs) dev path memory).Holds c
    else (FileFD.create (some fs) dev path memory).valid = false := by
  obtain ⟨hsize, hread⟩ := hfile.readFile hgeo h hne
  have hpos : 0 < c.length := List.length_pos_iff.mpr hne
  rw [FileFD.create, hsize]
  simp only
  rw [if_neg (show ¬ c.length = 0 by omega)]
  cases memory with
  | none => rw [if_neg fun hboth => hboth.2 rfl]; rfl
  | some buffer =>
    by_cases hfits : c.length ≤ 65536
    · rw [if_pos ⟨hfits, Option.some_ne_none buffer⟩]
      have hlimit : (if c.length > FileFD.maxFileSize then FileFD.maxFileSize else c.length) =
          c.length := if_neg (by rw [FileFD.maxFileSize]; omega)
      simp only [hlimit, hread, Nat.lt_irrefl, if_false, gt_iff_lt, hpos, if_true]
      exact ⟨rfl, ⟨_, rfl, slice_splice_self buffer 0 c⟩, Nat.zero_add _, hfits⟩
    · rw [if_neg fun hboth => hfits hboth.1]
      have hlimit : (if c.length > FileFD.maxFileSize then FileFD.maxFileSize else c.length) =
          65536 := if_pos (by rw [FileFD.maxFileSize]; omega)
      simp only [hlimit, hread, gt_iff_lt, show 65536 < c.length by omega, if_true,
        Nat.lt_irrefl, if_false]
      rfl

/-- A file of a well-formed volume that is not empty is opened and delivered exactly if it has at
most 64 KiB, and a number and memory for the descriptor can be had. -/
theorem open_delivers_iff (hgeo : Geometry fs) (h : WellFormed fs dev.store)
    (hfile : FileAt fs dev path c) (hne : c ≠ []) (d : Descriptors) (memory : Option Buffer) :
    OpensFor d (some fs) dev path memory c ↔
      c.length ≤ 65536 ∧ memory ≠ none ∧ d.freeNumber ≠ none := by
  have hcreate := hfile.create hgeo h hne memory
  rw [OpensFor, Descriptors.sysOpen]
  cases hfree : d.freeNumber with
  | none =>
    refine iff_of_false ?_ fun hall => hall.2.2 rfl
    rintro ⟨n, fd, hret, -⟩
    simp only at hret
    omega
  | some n =>
    simp only
    by_cases hboth : c.length ≤ 65536 ∧ memory ≠ none
    · rw [if_pos hboth] at hcreate
      refine iff_of_true ⟨n, FileFD.create (some fs) dev path memory, ?_, ?_, ?_⟩
        ⟨hboth.1, hboth.2, Option.some_ne_none n⟩
      · rw [if_pos hcreate.valid]
      · rw [if_pos hcreate.valid]
        exact Function.update_self ..
      · rw [List.take_of_length_le hboth.1]
        exact hcreate.delivers
    · rw [if_neg hboth] at hcreate
      refine iff_of_false ?_ fun hall => hboth ⟨hall.1, hall.2.1⟩
      rintro ⟨n', fd, hret, -⟩
      rw [if_neg (by rw [hcreate]; exact Bool.false_ne_true)] at hret
      simp only at hret
      omega

end Opening

/-! ## Two files -/

/-- The name `a` stands for the file of three bytes. -/
theorem oneFileDisk_fileAt :
    FileAt smallVolume oneFileDisk [0x61#8] [0x2A#8, 0x2A#8, 0x2A#8] := by
  have heval : smallVolume.resolve oneFileDisk [0x61#8] 0 = some ⟨2, 0⟩ ∧
      endOfChain ≤ (smallVolume.view oneFileDisk.store).fat 2 % 2 ^ 28 ∧
      ⟨2, 0⟩ ∈ (smallVolume.view oneFileDisk.store).live (smallVolume.slots [2]) ∧
      ((smallVolume.view oneFileDisk.store).entry ⟨2, 0⟩).isDot = false ∧
      ((smallVolume.view oneFileDisk.store).entry ⟨2, 0⟩).isDirectory = false ∧
      ((smallVolume.view oneFileDisk.store).entry ⟨2, 0⟩).fileSize = 3 ∧
      ((smallVolume.view oneFileDisk.store).entry ⟨2, 0⟩).firstCluster = 3 ∧
      endOfChain ≤ (smallVolume.view oneFileDisk.store).fat 3 % 2 ^ 28 ∧
      (List.range 3).all fun k =>
        (smallVolume.view oneFileDisk.store).data 3 k == [0x2A#8, 0x2A#8, 0x2A#8].getD k 0 := by
    decide +kernel
  obtain ⟨hpath, hroot, hlive, hdot, hregular, hsize, hfirst, hend, hdata⟩ := heval
  refine ⟨⟨2, 0⟩, hpath, ⟨2, [2], .root, root_chain hroot, hlive, hdot⟩, hregular, hsize,
    fun cs hcs => ?_⟩
  rw [hfirst] at hcs
  have hchain : ClusterChain smallVolume (smallVolume.view oneFileDisk.store) 3 [3] :=
    .last (c := 3) ⟨by decide, by decide, by decide⟩ hend
  rw [hcs.unique hchain]
  intro j c hj k _ hlt
  obtain ⟨rfl, rfl⟩ : j = 0 ∧ c = 3 := by
    cases j with
    | zero => exact ⟨rfl, (Option.some.inj hj).symm⟩
    | succ j => cases hj
  rw [Nat.zero_mul, Nat.zero_add] at hlt ⊢
  simpa using List.all_eq_true.mp hdata k (List.mem_range.mpr hlt)

/-- The file of three bytes is opened as number 3. -/
theorem open_delivers_small :
    OpensFor startDescriptors (some smallVolume) oneFileDisk [0x61#8] (some fun _ => 0)
        [0x2A#8, 0x2A#8, 0x2A#8] ↔
      [0x2A#8, 0x2A#8, 0x2A#8].length ≤ 65536 ∧ (some fun _ => 0 : Option Buffer) ≠ none ∧
        startDescriptors.freeNumber ≠ none :=
  open_delivers_iff smallVolume_geometry oneFileDisk_wellFormed oneFileDisk_fileAt (by decide) _ _

/-- A volume with clusters of 64 KiB. -/
def largeVolume : FAT32Driver := ⟨128, 1, 2, 0, 2⟩

/-- On it the file `A` has one byte more than a cluster. -/
def largeFileDisk : BlockDevice :=
  ⟨fun lba k =>
    if lba < 2 then
      ([0xF8#8, 0xFF#8, 0xFF#8, 0x0F#8, 0xFF#8, 0xFF#8, 0xFF#8, 0x0F#8, 0xFF#8, 0xFF#8, 0xFF#8,
        0x0F#8, 4#8, 0#8, 0#8, 0#8, 0xFF#8, 0xFF#8, 0xFF#8, 0x0F#8] : List Byte).getD k 0
    else if lba = 2 then (DirectoryEntry.create (oneLetter 0x41#8) 3 65537 0x20#8).getD k 0
    else 0, []⟩

/-- What is on it. -/
structure LargeFile (V : View) : Prop where
  root : ClusterChain largeVolume V 2 [2]
  chain : ClusterChain largeVolume V 3 [3, 4]
  live : V.live (largeVolume.slots [2]) = [⟨2, 0⟩]
  rest : ∀ s ∈ (largeVolume.slots [2]).tail, (V.entry s).first = 0
  first : (V.entry ⟨2, 0⟩).first ≠ 0
  dot : (V.entry ⟨2, 0⟩).isDot = false
  regular : (V.entry ⟨2, 0⟩).isDirectory = false
  size : (V.entry ⟨2, 0⟩).fileSize = 65537
  cluster : (V.entry ⟨2, 0⟩).firstCluster = 3

namespace LargeFile

variable {V : View}

theorem isDirectory (h : LargeFile V) {d : Nat} (hd : IsDirectory largeVolume V d) : d = 2 := by
  induction hd with
  | root => rfl
  | @sub d ds s _ hc hs hdir _ _ ih =>
    subst ih
    rw [hc.unique h.root, h.live, List.mem_singleton] at hs
    rw [hs, h.regular] at hdir
    cases hdir

theorem listed (h : LargeFile V) {s : Slot} (hs : Listed largeVolume V s) : s = ⟨2, 0⟩ := by
  obtain ⟨d, ds, hd, hc, hlive, -⟩ := hs
  obtain rfl := h.isDirectory hd
  rwa [hc.unique h.root, h.live, List.mem_singleton] at hlive

theorem owner (h : LargeFile V) {o : Owner} {c : Nat} {cs : List Nat} (ho : Owns largeVolume V o c)
    (hc : ClusterChain largeVolume V c cs) :
    o = .root ∧ c = 2 ∧ cs = [2] ∨ o = .slot ⟨2, 0⟩ ∧ c = 3 ∧ cs = [3, 4] := by
  cases o with
  | root =>
    obtain rfl : c = 2 := ho
    exact Or.inl ⟨rfl, rfl, hc.unique h.root⟩
  | slot s =>
    obtain ⟨hs, hfirst, -⟩ := ho
    obtain rfl := h.listed hs
    obtain rfl : 3 = c := h.cluster.symm.trans hfirst
    exact Or.inr ⟨rfl, rfl, hc.unique h.chain⟩

theorem sound (h : LargeFile V) : SoundVolume largeVolume V where
  chains o c ho := by
    cases o with
    | root =>
      obtain rfl : c = 2 := ho
      exact ⟨[2], h.root⟩
    | slot s =>
      obtain ⟨hs, hfirst, -⟩ := ho
      obtain rfl := h.listed hs
      exact ⟨[3, 4], hfirst ▸ h.cluster.symm ▸ h.chain⟩
  disjoint o o' c c' cs cs' ho ho' hne hc hc' x hx hx' := by
    rcases h.owner ho hc with ⟨rfl, -, rfl⟩ | ⟨rfl, -, rfl⟩ <;>
      rcases h.owner ho' hc' with ⟨rfl, -, rfl⟩ | ⟨rfl, -, rfl⟩
    · exact hne rfl
    · simp only [List.mem_cons, List.not_mem_nil, or_false] at hx hx'
      omega
    · simp only [List.mem_cons, List.not_mem_nil, or_false] at hx hx'
      omega
    · exact hne rfl
  ended d ds hd hc := by
    obtain rfl := h.isDirectory hd
    rw [hc.unique h.root]
    have hhead : (largeVolume.slots [2]).head? = some ⟨2, 0⟩ := by decide +kernel
    have hslots := List.eq_cons_of_mem_head? hhead
    rw [View.Ended, hslots, List.pairwise_cons]
    refine ⟨fun _ _ h0 => absurd h0 h.first, ?_⟩
    exact List.Pairwise.imp_of_mem (fun _ ht _ _ => h.rest _ ht)
      (List.pairwise_of_forall fun _ _ => trivial)
  sized s hs _ _ := by
    rw [h.listed hs, h.cluster]
    decide

end LargeFile

theorem largeFileDisk_view : LargeFile (largeVolume.view largeFileDisk.store) := by
  have hfat : endOfChain ≤ (largeVolume.view largeFileDisk.store).fat 2 % 2 ^ 28 ∧
      (largeVolume.view largeFileDisk.store).next 3 = 4 ∧
      endOfChain ≤ (largeVolume.view largeFileDisk.store).fat 4 % 2 ^ 28 := by
    decide +kernel
  have hslots : (largeVolume.view largeFileDisk.store).live (largeVolume.slots [2]) = [⟨2, 0⟩] ∧
      (largeVolume.slots [2]).tail.all fun s =>
        ((largeVolume.view largeFileDisk.store).entry s).first == 0 := by
    decide +kernel
  have hentry : ((largeVolume.view largeFileDisk.store).entry ⟨2, 0⟩).first ≠ 0 ∧
      ((largeVolume.view largeFileDisk.store).entry ⟨2, 0⟩).isDot = false ∧
      ((largeVolume.view largeFileDisk.store).entry ⟨2, 0⟩).isDirectory = false ∧
      ((largeVolume.view largeFileDisk.store).entry ⟨2, 0⟩).fileSize = 65537 ∧
      ((largeVolume.view largeFileDisk.store).entry ⟨2, 0⟩).firstCluster = 3 := by
    decide +kernel
  obtain ⟨hroot, hnext, hend⟩ := hfat
  obtain ⟨hfirst, hdot, hregular, hsize, hcluster⟩ := hentry
  refine ⟨.last (c := 2) ⟨by decide, by decide, by decide⟩ hroot,
    .cons (c := 3) ⟨by decide, by decide, by decide⟩ ?_, hslots.1, fun s hs => ?_, hfirst, hdot,
    hregular, hsize, hcluster⟩
  · rw [hnext]
    exact .last (c := 4) ⟨by decide, by decide, by decide⟩ hend
  · simpa using List.all_eq_true.mp hslots.2 s hs

theorem largeFileDisk_wellFormed : WellFormed largeVolume largeFileDisk.store := by
  have h := largeFileDisk_view
  have hfree : (List.range' 2 126).all fun x =>
      (largeVolume.view largeFileDisk.store).fat x == 0 || x == 2 || x == 3 || x == 4 := by
    decide +kernel
  refine ⟨fun k hk => rfl, h.sound, fun o c cs ho hc x hx => ?_, fun s cs hs _ _ hc => ?_,
    fun x h2 h128 hx => ?_⟩
  · rcases h.owner ho hc with ⟨-, -, rfl⟩ | ⟨-, -, rfl⟩
    · simp only [List.mem_cons, List.not_mem_nil, or_false] at hx
      omega
    · simp only [List.mem_cons, List.not_mem_nil, or_false] at hx
      omega
  · obtain rfl := h.listed hs
    rw [h.cluster] at hc
    rw [hc.unique h.chain, h.size]
    decide
  · have hx' := List.all_eq_true.mp hfree x (by rw [List.mem_range'_1]; omega)
    have hlisted : Listed largeVolume (largeVolume.view largeFileDisk.store) ⟨2, 0⟩ :=
      ⟨2, [2], .root, h.root, by rw [h.live]; exact List.mem_singleton_self _, h.dot⟩
    simp only [Bool.or_eq_true, beq_iff_eq] at hx'
    obtain ((h0 | rfl) | hx3) | hx4 := hx'
    · exact absurd h0 hx
    · exact ⟨.root, 2, [2], rfl, h.root, by simp⟩
    · exact ⟨.slot ⟨2, 0⟩, 3, [3, 4], ⟨hlisted, h.cluster, by decide⟩, h.chain, by simp [hx3]⟩
    · exact ⟨.slot ⟨2, 0⟩, 3, [3, 4], ⟨hlisted, h.cluster, by decide⟩, h.chain, by simp [hx4]⟩

theorem largeFileDisk_fileAt :
    FileAt largeVolume largeFileDisk [0x61#8] (List.replicate 65537 0) := by
  have h := largeFileDisk_view
  have hpath : largeVolume.resolve largeFileDisk [0x61#8] 0 = some ⟨2, 0⟩ := by decide +kernel
  refine ⟨⟨2, 0⟩, hpath, ⟨2, [2], .root, h.root, ?_, h.dot⟩, h.regular, ?_, fun cs hcs => ?_⟩
  · rw [h.live]
    exact List.mem_singleton_self _
  · rw [h.size, List.length_replicate]
  · rw [h.cluster] at hcs
    rw [hcs.unique h.chain]
    intro j c hj k hk hlt
    have hc : c = 3 ∨ c = 4 := by
      have hmem := List.mem_of_getElem? hj
      simpa using hmem
    have hlba : 2 < largeVolume.clusterToLBA c + k / 512 := by
      rcases hc with rfl | rfl
      · exact Nat.lt_of_lt_of_le (show 2 < largeVolume.clusterToLBA 3 by decide)
          (Nat.le_add_right ..)
      · exact Nat.lt_of_lt_of_le (show 2 < largeVolume.clusterToLBA 4 by decide)
          (Nat.le_add_right ..)
    have hzero : largeFileDisk.store (largeVolume.clusterToLBA c + k / 512) (k % 512) = 0 := by
      rw [largeFileDisk]
      simp only
      rw [if_neg (by omega), if_neg (by omega)]
    rw [List.length_replicate] at hlt
    rw [view]
    simp only [hzero, ite_self]
    rw [List.getD_eq_getElem?_getD, List.getElem?_replicate_of_lt hlt, Option.getD_some]

/-- A well-formed volume has a file of one byte more than 64 KiB, and it is not opened. -/
theorem open_refuses_large : Geometry largeVolume ∧ WellFormed largeVolume largeFileDisk.store ∧
    FileAt largeVolume largeFileDisk [0x61#8] (List.replicate 65537 0) ∧
    startDescriptors.freeNumber = some 3 ∧
    (startDescriptors.sysOpen (some largeVolume) largeFileDisk [0x61#8] (some fun _ => 0)).2 = -1 ∧
    ¬ OpensFor startDescriptors (some largeVolume) largeFileDisk [0x61#8] (some fun _ => 0)
      (List.replicate 65537 0) := by
  have hret : (startDescriptors.sysOpen (some largeVolume) largeFileDisk [0x61#8]
      (some fun _ => 0)).2 = -1 := by
    decide +kernel
  refine ⟨⟨by decide, by decide, by decide, rfl⟩, largeFileDisk_wellFormed, largeFileDisk_fileAt,
    rfl, hret, ?_⟩
  rintro ⟨n, fd, hopened, -⟩
  rw [hret] at hopened
  omega

end Sylphia
