import Sylphia.Fat.TreeRuns
import Sylphia.Sys.OpenFile

/-!
# The system calls on files

`Open` reads a file as it is then, and the descriptor hands out those bytes until `Close`, whatever
becomes of the file and of the other descriptors. So programs have a file tree and a table of what
is left to be read under each number, and the calls are those on this tree and this table.
-/

namespace Sylphia

open Bytes FAT32Driver FileTree

/-- `Read` of a descriptor: the descriptor afterwards, the result and the bytes that are copied out.
`typed` is what `Update` passes to the keyboard descriptor. -/
def FileDescriptor.read (typed : List Byte) (len : Nat) :
    FileDescriptor → FileDescriptor × Int × List Byte
  | .console => (.console, 0, [])
  | .keyboard fd =>
    let (fd, bytes) := fd.read typed len
    (.keyboard fd, toInt bytes.length, bytes)
  | .pipe fd =>
    let (fd, bytes) := fd.read len
    (.pipe fd, toInt bytes.length, bytes)
  | .file fd =>
    let (fd, result, bytes) := fd.read len
    (.file fd, result, bytes)

namespace Descriptors

/-- The system call `Read`. -/
def sysRead (d : Descriptors) (fd : BitVec 64) (typed : List Byte) (len : Nat) :
    Descriptors × Int × List Byte :=
  match d.find fd with
  | none => (d, -1, [])
  | some (n, descriptor) =>
    let (descriptor, result, bytes) := descriptor.read typed len
    ({ d with fds := Function.update d.fds n (some descriptor) }, result, bytes)

/-- The system call `Close`. -/
def sysClose (d : Descriptors) (fd : BitVec 64) : Descriptors × Int :=
  let n := (fd.setWidth 32).toInt
  if 3 ≤ n ∧ n < 16 ∧ (d.fds n.toNat).isSome then
    ({ d with fds := Function.update d.fds n.toNat none }, 0)
  else (d, -1)

end Descriptors

/-- A system call of a program, or a change that the kernel makes to the files. -/
inductive FileCall
  | openFile (path : List Byte) (memory : Option Buffer)
  | close (fd : BitVec 64)
  | read (fd : BitVec 64) (typed : List Byte) (len : Nat)
  | write (fd : BitVec 64) (stack userBuf : Buffer) (len : BitVec 64)
  | readFile (path : List Byte) (len : Nat)
  | deleteFile (name : List Byte)
  | change (p : List (List Byte)) (call : FatCall)

/-- What a call returns, and the bytes it copies to the caller. -/
structure SysReply where
  result : Int
  bytes : List Byte
  deriving DecidableEq

/-- The disk, as long as every call came back, and the table of the descriptors. -/
structure FileState where
  disk : Option Disk
  descriptors : Descriptors

/-- One call. -/
def FileCall.step (fs : FAT32Driver) (s : FileState) : FileCall → FileState × SysReply
  | .openFile path memory =>
    match s.disk with
    | none => (s, ⟨-1, []⟩)
    | some d =>
      let (descriptors, result) := s.descriptors.sysOpen (some fs) ⟨d, []⟩ path memory
      ({ s with descriptors := descriptors }, ⟨result, []⟩)
  | .close fd =>
    let (descriptors, result) := s.descriptors.sysClose fd
    ({ s with descriptors := descriptors }, ⟨result, []⟩)
  | .read fd typed len =>
    let (descriptors, result, bytes) := s.descriptors.sysRead fd typed len
    ({ s with descriptors := descriptors }, ⟨result, bytes⟩)
  | .write fd stack userBuf len =>
    let (descriptors, result) := s.descriptors.sysWrite fd stack userBuf len
    ({ s with descriptors := descriptors }, ⟨result, []⟩)
  | .readFile path len =>
    match s.disk with
    | none => (s, ⟨0, []⟩)
    | some d =>
      let (result, bytes) := fs.readFile ⟨d, []⟩ path len 0
      (s, ⟨result, bytes⟩)
  | .deleteFile name =>
    match s.disk.bind fun d => fs.deleteFile ⟨d, []⟩ name 0 with
    | none => ({ s with disk := none }, ⟨-1, []⟩)
    | some (deleted, dev) =>
      ({ s with disk := some dev.store }, ⟨if deleted then 0 else -1, []⟩)
  | .change _ call => ({ s with disk := call.step fs s.disk }, ⟨0, []⟩)

/-- What is under a number: a file with what is left to be read of it, or anything else. -/
inductive OpenFile
  | device (descriptor : FileDescriptor)
  | file (rest : List Byte)

/-- What programs have: the files and directories, what is under each number, and the console. -/
structure FileView where
  tree : VolumeTree
  numbers : Nat → Option OpenFile
  console : Console

namespace VolumeTree

/-- The file that a path leads to, from the root directory. -/
def fileAt (t : VolumeTree) (path : List Byte) : Option (List Byte) :=
  if (entryNames path.length (relative path)).2 then
    match t.node ((entryNames path.length (relative path)).1.map convertName) with
    | some (.file b) => some b
    | _ => none
  else none

/-- What a reader with a buffer of so many bytes gets of a file. -/
def readAt (t : VolumeTree) (path : List Byte) (bufferSize : Nat) : List Byte :=
  match t.fileAt path with
  | some b => if b.length > bufferSize then [] else b
  | none => []

end VolumeTree

namespace OpenFile

/-- A read takes what it is asked for off the rest. -/
def read (typed : List Byte) (len : Nat) : OpenFile → OpenFile × SysReply
  | .device descriptor =>
    let (descriptor, result, bytes) := descriptor.read typed len
    (.device descriptor, ⟨result, bytes⟩)
  | .file rest => (.file (rest.drop len), ⟨(min len rest.length : Nat), rest.take len⟩)

/-- Nothing is written to a file. -/
def write (console : Console) (bytes : List Byte) : OpenFile → Console × OpenFile × Int
  | .device descriptor =>
    let (console, descriptor, result) := descriptor.write console bytes
    (console, .device descriptor, result)
  | .file rest => (console, .file rest, -1)

end OpenFile

namespace FileView

/-- The first free number from 3 on. -/
def freeNumber (v : FileView) : Option Nat :=
  (List.range' 3 13).find? fun n => (v.numbers n).isNone

/-- What is under the number that a program gives. -/
def find (v : FileView) (fd : BitVec 64) : Option (Nat × OpenFile) :=
  let n := (fd.setWidth 32).toInt
  if 0 ≤ n ∧ n < 16 then (v.numbers n.toNat).map fun file => (n.toNat, file) else none

/-- What is under the number is replaced. -/
def set (v : FileView) (n : Nat) (file : Option OpenFile) : FileView :=
  { v with numbers := Function.update v.numbers n file }

end FileView

/-- One call on the tree and the table. -/
def FileCall.onView (v : FileView) : FileCall → FileView × SysReply
  | .openFile path memory =>
    match v.freeNumber with
    | none => (v, ⟨-1, []⟩)
    | some n =>
      if v.tree.readAt path 65536 = [] ∨ memory = none then (v, ⟨-1, []⟩)
      else (v.set n (some (.file (v.tree.readAt path 65536))), ⟨n, []⟩)
  | .close fd =>
    let n := (fd.setWidth 32).toInt
    if 3 ≤ n ∧ n < 16 ∧ (v.numbers n.toNat).isSome then (v.set n.toNat none, ⟨0, []⟩)
    else (v, ⟨-1, []⟩)
  | .read fd typed len =>
    match v.find fd with
    | none => (v, ⟨-1, []⟩)
    | some (n, file) => (v.set n (some (file.read typed len).1), (file.read typed len).2)
  | .write fd stack userBuf len =>
    match v.find fd with
    | none => (v, ⟨-1, []⟩)
    | some (n, file) =>
      let (console, file, result) := file.write v.console (writeArgument stack userBuf len.toNat)
      ({ v.set n (some file) with console := console }, ⟨result, []⟩)
  | .readFile path len => (v, ⟨(v.tree.readAt path len).length, v.tree.readAt path len⟩)
  | .deleteFile name =>
    match v.tree.node [convertName name] with
    | none => (v, ⟨-1, []⟩)
    | some _ => ({ v with tree := v.tree.put [] (convertName name) none }, ⟨0, []⟩)
  | .change p call => ({ v with tree := call.onTree v.tree p }, ⟨0, []⟩)

/-- Directories are not deleted, and what the kernel changes is permitted by the tree and finds
room. -/
def FileCall.Permitted (fs : FAT32Driver) (d : Disk) (t : VolumeTree) : FileCall → Prop
  | .deleteFile name => t.node [convertName name] ≠ some .directory
  | .change p call => call.MadeAt fs ⟨d, []⟩ t p
  | _ => True

/-- Anything but an open file. -/
def FileDescriptor.IsDevice : FileDescriptor → Prop
  | .file _ => False
  | _ => True

/-- The descriptor stands for what is under its number. -/
inductive Stands : Option FileDescriptor → Option OpenFile → Prop
  | free : Stands none none
  | device {descriptor : FileDescriptor} (h : descriptor.IsDevice) :
      Stands (some descriptor) (some (.device descriptor))
  | file {fd : FileFD} {rest : List Byte} (h : fd.Holds rest) :
      Stands (some (.file fd)) (some (.file rest))

/-- The disk has the tree, and the descriptors stand for what is under the numbers. -/
structure HasFiles (fs : FAT32Driver) (s : FileState) (v : FileView) : Prop where
  disk : ∃ d, s.disk = some d ∧ HasTree fs d v.tree
  numbers : ∀ n, Stands (s.descriptors.fds n) (v.numbers n)
  console : s.descriptors.console = v.console

section Tables

variable {o : Option FileDescriptor} {o' : Option OpenFile} {descriptor : FileDescriptor}

theorem Stands.isNone (h : Stands o o') : o.isNone = o'.isNone := by
  cases h <;> rfl

theorem Stands.isSome (h : Stands o o') : o.isSome = o'.isSome := by
  cases h <;> rfl

theorem isDevice_read (h : descriptor.IsDevice) (typed : List Byte) (len : Nat) :
    (descriptor.read typed len).1.IsDevice := by
  cases descriptor with
  | file => exact h.elim
  | console => trivial
  | keyboard => trivial
  | pipe => trivial

theorem isDevice_write (h : descriptor.IsDevice) (console : Console) (bytes : List Byte) :
    (descriptor.write console bytes).2.1.IsDevice := by
  cases descriptor with
  | file => exact h.elim
  | console => cases console <;> trivial
  | keyboard => trivial
  | pipe => trivial

/-- A read gives the same of both, and leaves them standing for each other. -/
theorem Stands.read {file : OpenFile} (h : Stands (some descriptor) (some file))
    (typed : List Byte) (len : Nat) :
    (⟨(descriptor.read typed len).2.1, (descriptor.read typed len).2.2⟩ : SysReply) =
        (file.read typed len).2 ∧
      Stands (some (descriptor.read typed len).1) (some (file.read typed len).1) := by
  cases h with
  | device h => exact ⟨rfl, .device (isDevice_read h typed len)⟩
  | @file fd rest h =>
    obtain ⟨hnext, hresult, hbytes⟩ := h.read len
    exact ⟨congrArg₂ SysReply.mk hresult hbytes, .file hnext⟩

theorem Stands.write {file : OpenFile} (h : Stands (some descriptor) (some file))
    (console : Console) (bytes : List Byte) :
    (descriptor.write console bytes).1 = (file.write console bytes).1 ∧
      (descriptor.write console bytes).2.2 = (file.write console bytes).2.2 ∧
      Stands (some (descriptor.write console bytes).2.1)
        (some (file.write console bytes).2.1) := by
  cases h with
  | device h => exact ⟨rfl, rfl, .device (isDevice_write h console bytes)⟩
  | file h => exact ⟨rfl, rfl, .file h⟩

variable {fds : Nat → Option FileDescriptor} {numbers : Nat → Option OpenFile} {n : Nat}

theorem Stands.update (h : ∀ n, Stands (fds n) (numbers n)) (hn : Stands o o') (k : Nat) :
    Stands (Function.update fds n o k) (Function.update numbers n o' k) := by
  rw [Function.update_apply, Function.update_apply]
  split
  · exact hn
  · exact h k

end Tables

/-! ## The calls agree -/

section Agree

variable {fs : FAT32Driver} {s : FileState} {v : FileView} {d : Disk} {t : VolumeTree}
  {path : List Byte}

/-- The size of a file is that of the file in the tree. -/
theorem HasTree.getFileSize (h : HasTree fs d t) :
    fs.getFileSize ⟨d, []⟩ path = ((t.fileAt path).map List.length).getD 0 := by
  have hroot : DirectoryAt fs (fs.view d) [] (fs.directoryOf (if path.head? = some 0x2F#8
      then fs.rootClus else fs.directoryOf 0)) := by
    have hzero : fs.directoryOf 0 = fs.rootClus := if_pos rfl
    rw [hzero, ite_self, directoryOf_root h.named.sound]
    exact .root
  rw [FAT32Driver.getFileSize, getFileEntry, resolve_along, VolumeTree.fileAt]
  cases hends : (entryNames path.length (relative path)).2 with
  | false => rw [resolveAlong_open]; rfl
  | true =>
    rw [if_pos rfl]
    rcases @resolveAlong_represents fs ⟨d, []⟩ _ _ _ _ h.named h.represents
        (names_ne_nil_of_ends hends) hroot with ⟨hnone, hnode⟩ | ⟨s, n, hsome, hn, hnode⟩
    · rw [hnone, ← List.nil_append ((entryNames path.length (relative path)).1.map convertName),
        hnode]
      rfl
    · rw [hsome, ← List.nil_append ((entryNames path.length (relative path)).1.map convertName),
        hnode]
      cases hn with
      | directory _ _ hsize => exact hsize
      | file _ hb => exact hb.1.symm

theorem HasTree.readFile (h : HasTree fs d t) (hgeo : Geometry fs) (len : Nat) :
    fs.readFile ⟨d, []⟩ path len 0 = ((t.readAt path len).length, t.readAt path len) := by
  have hroot : DirectoryAt fs (fs.view d) [] (fs.directoryOf 0) := by
    rw [directoryOf, if_pos rfl]
    exact .root
  rw [@readFile_represents fs ⟨d, []⟩ _ _ _ _ _ h.named h.represents hgeo hroot, ite_self,
    List.nil_append, VolumeTree.readAt, VolumeTree.fileAt, VolumeTree.read]
  split_ifs
  · cases t.node ((entryNames path.length (relative path)).1.map convertName) with
    | none => rfl
    | some n =>
      cases n with
      | directory => rfl
      | file b =>
        dsimp only
        split_ifs <;> rfl
  · rfl

/-- `Open` has a descriptor for what the tree gives a reader with a buffer of 64 KiB. -/
theorem HasTree.create (h : HasTree fs d t) (hgeo : Geometry fs) (memory : Option Buffer) :
    if t.readAt path 65536 = [] ∨ memory = none then
      (FileFD.create (some fs) ⟨d, []⟩ path memory).valid = false
    else (FileFD.create (some fs) ⟨d, []⟩ path memory).Holds (t.readAt path 65536) := by
  have hread (len : Nat) : fs.readFile ⟨d, []⟩ path len 0 =
      ((t.readAt path len).length, t.readAt path len) := h.readFile hgeo len
  rw [FileFD.create, h.getFileSize]
  cases hfile : t.fileAt path with
  | none =>
    have hnil : t.readAt path 65536 = [] := by rw [VolumeTree.readAt, hfile]
    rw [if_pos (Or.inl hnil)]
    rfl
  | some b =>
    have hat (len : Nat) : t.readAt path len = if b.length > len then [] else b := by
      rw [VolumeTree.readAt, hfile]
    rw [Option.map_some, Option.getD_some]
    by_cases hempty : b.length = 0
    · have hnil : t.readAt path 65536 = [] := by
        rw [hat, List.eq_nil_of_length_eq_zero hempty, ite_self]
      rw [if_pos (Or.inl hnil), if_pos hempty]
      rfl
    simp only
    rw [if_neg hempty]
    cases memory with
    | none =>
      rw [if_pos (Or.inr rfl)]
      rfl
    | some buffer =>
      simp only [reduceCtorEq, or_false]
      by_cases hfits : b.length ≤ 65536
      · have hlimit : (if b.length > FileFD.maxFileSize then FileFD.maxFileSize else b.length) =
            b.length := if_neg (by rw [FileFD.maxFileSize]; omega)
        have hwhole : t.readAt path 65536 = b := by rw [hat, if_neg (by omega)]
        have hnext : t.readAt path b.length = b := by rw [hat, if_neg (Nat.lt_irrefl _)]
        have hpos : b.length > 0 := by omega
        rw [hlimit, hread, hnext, hwhole, if_neg fun hnil => hempty (by rw [hnil]; rfl),
          if_pos hpos]
        exact ⟨rfl, ⟨_, rfl, slice_splice_self buffer 0 b⟩, Nat.zero_add _, hfits⟩
      · have hlimit : (if b.length > FileFD.maxFileSize then FileFD.maxFileSize else b.length) =
            65536 := if_pos (by rw [FileFD.maxFileSize]; omega)
        have hnil : t.readAt path 65536 = [] := by rw [hat, if_pos (by omega)]
        rw [hlimit, hread, hnil, if_pos rfl]
        rfl

/-- The numbers that `Open` looks at are the same. -/
theorem HasFiles.freeNumber (h : HasFiles fs s v) : s.descriptors.freeNumber = v.freeNumber := by
  rw [Descriptors.freeNumber, FileView.freeNumber]
  congr
  funext n
  exact (h.numbers n).isNone

/-- What a number leads to. -/
theorem HasFiles.find (h : HasFiles fs s v) (fd : BitVec 64) :
    (s.descriptors.find fd = none ∧ v.find fd = none) ∨
      ∃ n descriptor file, s.descriptors.find fd = some (n, descriptor) ∧
        v.find fd = some (n, file) ∧ Stands (some descriptor) (some file) := by
  rw [Descriptors.find, FileView.find]
  split_ifs
  · have hn := h.numbers (fd.setWidth 32).toInt.toNat
    generalize s.descriptors.fds (fd.setWidth 32).toInt.toNat = o at hn
    generalize v.numbers (fd.setWidth 32).toInt.toNat = o' at hn
    cases o with
    | none =>
      cases hn
      exact Or.inl ⟨rfl, rfl⟩
    | some descriptor =>
      cases o' with
      | none => cases hn
      | some file => exact Or.inr ⟨_, descriptor, file, rfl, rfl, hn⟩
  · exact Or.inl ⟨rfl, rfl⟩

/-- The table after a change under one number. -/
theorem HasFiles.set (h : HasFiles fs s v) {o : Option FileDescriptor} {o' : Option OpenFile}
    (ho : Stands o o') (n : Nat) :
    HasFiles fs { s with descriptors :=
      { s.descriptors with fds := Function.update s.descriptors.fds n o } } (v.set n o') where
  disk := h.disk
  numbers := fun k => Stands.update h.numbers ho k
  console := h.console

/-- `DeleteFile` in the root directory deletes a file of the tree, and nothing else. -/
theorem HasTree.deleteFile (h : HasTree fs d t) (hgeo : Geometry fs) {name : List Byte}
    (hno : t.node [convertName name] ≠ some .directory) :
    (t.node [convertName name] = none ∧ fs.deleteFile ⟨d, []⟩ name 0 = some (false, ⟨d, []⟩)) ∨
      ∃ b dev, t.node [convertName name] = some (.file b) ∧
        fs.deleteFile ⟨d, []⟩ name 0 = some (true, dev) ∧
        HasTree fs dev.store (t.put [] (convertName name) none) := by
  have hroot : DirectoryAt fs (fs.view d) [] (fs.directoryOf 0) := by
    rw [directoryOf, if_pos rfl]
    exact .root
  have hc := h.named.directory_chain hroot.isDirectory
  have hcases := @deleteFile_cases fs ⟨d, []⟩ name _ 0 _ hgeo h.named.sound rfl
    hroot.isDirectory hc
  cases hnode : t.node [convertName name] with
  | none =>
    rcases hcases with ⟨-, hrun⟩ | ⟨s, cs, dev₁, hfind, -⟩
    · exact Or.inl ⟨rfl, hrun⟩
    · obtain ⟨hentry, hname⟩ := entryAt_of_find hroot hc hfind
      exact absurd hname (h.represents.absent_iff.mp hnode s hentry)
  | some n =>
    cases n with
    | directory => exact absurd hnode hno
    | file b =>
      have hcall : (FatCall.deleteFile name 0).MadeAt fs ⟨d, []⟩ t [] :=
        ⟨hroot, ⟨b, hnode⟩, id⟩
      obtain ⟨d', hstep, hnext⟩ := h.step hgeo hcall
      rcases hcases with ⟨hnone, -⟩ | ⟨s, cs, dev₁, -, -, -, -, hrun⟩
      · obtain ⟨s, hs, -⟩ := @findSlot_of_tree fs ⟨d, []⟩ _ _ _ _ _ h.named h.represents hroot hnode
        have hfind := @findSlot_eq fs ⟨d, []⟩ _ _ name hc
        rw [← findSlot_directoryOf, hfind, List.take_of_length_le (by simp), hnone] at hs
        cases hs
      · refine Or.inr ⟨b, _, rfl, hrun, ?_⟩
        rw [FatCall.step, Option.bind_some, FatCall.run, hrun] at hstep
        cases hstep
        exact hnext

/-- Each call gives the same reply, and the disk and the table go along with the tree and the
numbers. -/
theorem HasFiles.step (h : HasFiles fs s v) (hgeo : Geometry fs) {c : FileCall}
    (hperm : ∀ d, s.disk = some d → c.Permitted fs d v.tree) :
    (c.step fs s).2 = (c.onView v).2 ∧ HasFiles fs (c.step fs s).1 (c.onView v).1 := by
  obtain ⟨d, hd, htree⟩ := h.disk
  obtain ⟨disk, descriptors⟩ := s
  obtain rfl : disk = some d := hd
  cases c with
  | openFile path memory =>
    have hcreate := @HasTree.create fs d v.tree path htree hgeo memory
    have hfree : descriptors.freeNumber = v.freeNumber := h.freeNumber
    rw [FileCall.step, FileCall.onView]
    dsimp only
    rw [Descriptors.sysOpen, hfree]
    cases v.freeNumber with
    | none => exact ⟨rfl, h⟩
    | some n =>
      dsimp only
      by_cases hbad : v.tree.readAt path 65536 = [] ∨ memory = none
      · rw [if_pos hbad] at hcreate
        rw [if_neg (by rw [hcreate]; exact Bool.false_ne_true), if_pos hbad]
        exact ⟨rfl, h⟩
      · rw [if_neg hbad] at hcreate
        rw [if_pos hcreate.valid, if_neg hbad]
        exact ⟨rfl, h.set (.file hcreate) n⟩
  | close fd =>
    have hsome := (h.numbers (fd.setWidth 32).toInt.toNat).isSome
    rw [FileCall.step, FileCall.onView, Descriptors.sysClose]
    dsimp only at hsome ⊢
    rw [hsome]
    split_ifs
    · exact ⟨rfl, h.set .free _⟩
    · exact ⟨rfl, h⟩
  | read fd typed len =>
    rw [FileCall.step, FileCall.onView, Descriptors.sysRead]
    rcases h.find fd with ⟨hnone, hnone'⟩ | ⟨n, descriptor, file, hsome, hsome', hstands⟩
    · dsimp only at hnone ⊢
      rw [hnone, hnone']
      exact ⟨rfl, h⟩
    · dsimp only at hsome ⊢
      rw [hsome, hsome']
      obtain ⟨hreply, hnext⟩ := hstands.read typed len
      exact ⟨hreply, h.set hnext n⟩
  | write fd stack userBuf len =>
    rw [FileCall.step, FileCall.onView, Descriptors.sysWrite, Descriptors.handed]
    rcases h.find fd with ⟨hnone, hnone'⟩ | ⟨n, descriptor, file, hsome, hsome', hstands⟩
    · dsimp only at hnone ⊢
      rw [hnone, hnone']
      exact ⟨rfl, h⟩
    · dsimp only at hsome ⊢
      rw [hsome, hsome', ← h.console]
      obtain ⟨hconsole, hresult, hnext⟩ := hstands.write descriptors.console
        (writeArgument stack userBuf len.toNat)
      exact ⟨congrArg (fun r => SysReply.mk r []) hresult, h.disk,
        fun k => Stands.update h.numbers hnext k, hconsole⟩
  | readFile path len =>
    rw [FileCall.step, FileCall.onView]
    dsimp only
    rw [htree.readFile hgeo]
    exact ⟨rfl, h⟩
  | deleteFile name =>
    rw [FileCall.step, FileCall.onView, Option.bind_some]
    rcases htree.deleteFile hgeo (hperm d rfl) with ⟨hnode, hrun⟩ | ⟨b, dev, hnode, hrun, hnext⟩
    · rw [hnode, hrun]
      exact ⟨rfl, h⟩
    · rw [hnode, hrun]
      exact ⟨rfl, ⟨_, rfl, hnext⟩, h.numbers, h.console⟩
  | change p call =>
    obtain ⟨d', hstep, hnext⟩ := htree.step hgeo (hperm d rfl)
    exact ⟨rfl, ⟨d', hstep, hnext⟩, h.numbers, h.console⟩

end Agree

/-! ## Runs -/

/-- The runs of calls from a state. -/
abbrev FileRun (fs : FAT32Driver) (s₀ : FileState) :
    List (FileState × FileCall) → FileState → Prop :=
  Transition.Run (fun s c => (c.step fs s).1) (fun _ _ => True) (· = s₀)

/-- The tree and the numbers after calls, the newest first. -/
def viewAfter (v : FileView) (run : List (FileState × FileCall)) : FileView :=
  run.foldr (fun x v => (x.2.onView v).1) v

/-- Each call was permitted by the tree of its time. -/
def FilesPermitted (fs : FAT32Driver) (v : FileView) : List (FileState × FileCall) → Prop :=
  Transition.Throughout fun past x =>
    ∀ d, x.1.disk = some d → x.2.Permitted fs d (viewAfter v past).tree

namespace FileCall

/-- The call reads under the number. -/
def Reads (n : Nat) : FileCall → Prop
  | .read fd _ _ => (fd.setWidth 32).toInt = n
  | _ => False

instance (n : Nat) : (c : FileCall) → Decidable (c.Reads n)
  | .read _ _ _ => inferInstanceAs (Decidable (_ = _))
  | .openFile .. | .close .. | .write .. | .readFile .. | .deleteFile .. | .change .. =>
    inferInstanceAs (Decidable False)

/-- The call closes the number. -/
def Closes (n : Nat) : FileCall → Prop
  | .close fd => (fd.setWidth 32).toInt = n
  | _ => False

end FileCall

/-- What the reads under a number delivered, in their order. -/
def delivered (fs : FAT32Driver) (n : Nat) : List (FileState × FileCall) → List Byte
  | [] => []
  | x :: past => delivered fs n past ++ if x.2.Reads n then (x.2.step fs x.1).2.bytes else []

section Runs

variable {fs : FAT32Driver} {s₀ s : FileState} {v : FileView} {c : FileCall} {n : Nat}
  {b rest : List Byte} {run : List (FileState × FileCall)}

/-- Programs see a file tree and a table: in every run of permitted calls each reply is the one
that the tree and the table give, and at the end the disk and the descriptors have them. -/
theorem file_calls_run (hgeo : Geometry fs) (h₀ : HasFiles fs s₀ v) (hrun : FileRun fs s₀ run s)
    (hperm : FilesPermitted fs v run) :
    Transition.Throughout (fun past x => (x.2.step fs x.1).2 = (x.2.onView (viewAfter v past)).2)
        run ∧ HasFiles fs s (viewAfter v run) := by
  refine hrun.throughout (I := fun run s => HasFiles fs s (viewAfter v run)) ?_ ?_ hperm
  · rintro s rfl
    exact h₀
  · intro past s c h _ hc
    exact h.step hgeo hc

theorem VolumeTree.fileAt_of_readAt {t : VolumeTree} {path : List Byte} {len : Nat}
    (h : t.readAt path len ≠ []) :
    t.fileAt path = some (t.readAt path len) ∧ (t.readAt path len).length ≤ len := by
  rw [readAt] at h ⊢
  cases hfile : t.fileAt path with
  | none =>
    rw [hfile] at h
    exact absurd rfl h
  | some b =>
    rw [hfile] at h
    dsimp only at h ⊢
    split_ifs at h ⊢ with hlong
    · exact absurd rfl h
    · exact ⟨rfl, Nat.not_lt.mp hlong⟩

theorem FileView.freeNumber_spec (h : v.freeNumber = some n) :
    (3 ≤ n ∧ n < 16) ∧ v.numbers n = none := by
  have hmem := List.mem_of_find?_eq_some h
  have hfree := (List.find?_eq_some_iff_append.mp h).1
  rw [List.mem_range'_1] at hmem
  exact ⟨hmem, Option.isNone_iff_eq_none.mp hfree⟩

/-- `Open` fails, or it has the file under a number that was free. -/
theorem onView_openFile (v : FileView) (path : List Byte) (memory : Option Buffer) :
    (FileCall.openFile path memory).onView v = (v, ⟨-1, []⟩) ∨
      ∃ n, v.freeNumber = some n ∧ v.tree.readAt path 65536 ≠ [] ∧
        (FileCall.openFile path memory).onView v =
          (v.set n (some (.file (v.tree.readAt path 65536))), ⟨n, []⟩) := by
  rw [FileCall.onView]
  cases hfree : v.freeNumber with
  | none => exact Or.inl rfl
  | some n =>
    dsimp only
    split_ifs with hbad
    · exact Or.inl rfl
    · exact Or.inr ⟨n, rfl, fun hnil => hbad (Or.inl hnil), rfl⟩

theorem Descriptors.find_eq_some {d : Descriptors} {fd : BitVec 64} {descriptor : FileDescriptor}
    (h : d.find fd = some (n, descriptor)) :
    (fd.setWidth 32).toInt = n ∧ d.fds n = some descriptor := by
  rw [Descriptors.find] at h
  split_ifs at h with hrange
  obtain ⟨descriptor', hfds, heq⟩ := Option.map_eq_some_iff.mp h
  cases heq
  exact ⟨(Int.toNat_of_nonneg hrange.1).symm, hfds⟩

/-- A file that is open under a number, with what is left to be read of it. -/
def FileState.Has (s : FileState) (n : Nat) (rest : List Byte) : Prop :=
  ∃ fd, s.descriptors.fds n = some (.file fd) ∧ fd.Holds rest

/-- A table in which another number changes. -/
theorem FileState.Has.update (h : s.Has n rest) {k : Nat} (hk : n ≠ k)
    (o : Option FileDescriptor) (disk : Option Disk) (console : Console) :
    FileState.Has ⟨disk, ⟨Function.update s.descriptors.fds k o, console⟩⟩ n rest := by
  obtain ⟨fd, hfd, hholds⟩ := h
  exact ⟨fd, (Function.update_of_ne hk _ _).trans hfd, hholds⟩

/-- What an open file has left after a call that does not close it, whatever the disk has. -/
theorem FileState.Has.step (h : s.Has n rest) (hc : ¬c.Closes n) :
    ∃ rest', (if c.Reads n then (c.step fs s).2.bytes else []) ++ rest' = rest ∧
      (c.step fs s).1.Has n rest' := by
  have hheld := h
  obtain ⟨file, hfile, hholds⟩ := h
  cases c with
  | openFile path memory =>
    refine ⟨rest, rfl, ?_⟩
    rw [FileCall.step]
    cases hdisk : s.disk with
    | none => exact hheld
    | some d =>
      dsimp only
      rw [Descriptors.sysOpen]
      cases hfree : s.descriptors.freeNumber with
      | none => exact ⟨file, hfile, hholds⟩
      | some k =>
        dsimp only
        split_ifs
        · refine hheld.update ?_ _ _ _
          rintro rfl
          have hnone := (List.find?_eq_some_iff_append.mp hfree).1
          rw [hfile] at hnone
          cases hnone
        · exact ⟨file, hfile, hholds⟩
  | close fd =>
    refine ⟨rest, rfl, ?_⟩
    rw [FileCall.step, Descriptors.sysClose]
    dsimp only
    split_ifs with hclose
    · refine hheld.update ?_ _ _ _
      rintro rfl
      exact hc (Int.toNat_of_nonneg ((by decide : (0 : Int) ≤ 3).trans hclose.1)).symm
    · exact ⟨file, hfile, hholds⟩
  | read fd typed len =>
    rw [FileCall.step, Descriptors.sysRead]
    cases hfind : s.descriptors.find fd with
    | none => exact ⟨rest, by rw [ite_self]; rfl, ⟨file, hfile, hholds⟩⟩
    | some x =>
      obtain ⟨k, descriptor⟩ := x
      obtain ⟨hfd, hk⟩ := Descriptors.find_eq_some hfind
      dsimp only
      by_cases hkn : k = n
      · subst hkn
        obtain rfl : descriptor = .file file := Option.some.inj (hk.symm.trans hfile)
        obtain ⟨hnext, -, hbytes⟩ := hholds.read len
        rw [if_pos (show FileCall.Reads k (.read fd typed len) from hfd)]
        exact ⟨rest.drop len, (congrArg (· ++ _) hbytes).trans (List.take_append_drop len rest),
          _, Function.update_self .., hnext⟩
      · have hreads : ¬FileCall.Reads n (.read fd typed len) := fun h =>
          hkn (Int.ofNat_inj.mp (hfd.symm.trans h))
        rw [if_neg hreads]
        exact ⟨rest, rfl, hheld.update (Ne.symm hkn) _ _ _⟩
  | write fd stack userBuf len =>
    refine ⟨rest, rfl, ?_⟩
    rw [FileCall.step, Descriptors.sysWrite, Descriptors.handed]
    cases hfind : s.descriptors.find fd with
    | none => exact ⟨file, hfile, hholds⟩
    | some x =>
      obtain ⟨k, descriptor⟩ := x
      obtain ⟨-, hk⟩ := Descriptors.find_eq_some hfind
      by_cases hkn : k = n
      · subst hkn
        obtain rfl : descriptor = .file file := Option.some.inj (hk.symm.trans hfile)
        exact ⟨file, Function.update_self .., hholds⟩
      · exact hheld.update (Ne.symm hkn) _ _ _
  | readFile path len =>
    refine ⟨rest, rfl, ?_⟩
    rw [FileCall.step]
    split <;> exact hheld
  | deleteFile name =>
    refine ⟨rest, rfl, ?_⟩
    rw [FileCall.step]
    split <;> exact ⟨file, hfile, hholds⟩
  | change p call => exact ⟨rest, rfl, file, hfile, hholds⟩

/-- The reads under a number take the file apart. -/
theorem FileState.Has.afterRun (h : s₀.Has n b) (hrun : FileRun fs s₀ run s)
    (hkept : ∀ x ∈ run, ¬x.2.Closes n) : ∃ rest, delivered fs n run ++ rest = b ∧ s.Has n rest := by
  induction hrun with
  | start h₀ =>
    subst h₀
    exact ⟨b, rfl, h⟩
  | @step past s c _ _ ih =>
    rw [List.forall_mem_cons] at hkept
    obtain ⟨rest, hdelivered, hrest⟩ := ih hkept.2
    obtain ⟨rest', hsplit, hleft⟩ := hrest.step hkept.1
    refine ⟨rest', ?_, hleft⟩
    rw [delivered, List.append_assoc, hsplit, hdelivered]

/-- The next read under a number gives as much of the file as is asked for or left. -/
theorem FileState.Has.read (h : s.Has n rest) (hrange : n < 16) {fd : BitVec 64}
    (hfd : (fd.setWidth 32).toInt = n) (typed : List Byte) (len : Nat) :
    ((FileCall.read fd typed len).step fs s).2 =
      ⟨(min len rest.length : Nat), rest.take len⟩ := by
  obtain ⟨file, hfile, hholds⟩ := h
  have hfind : s.descriptors.find fd = some (n, .file file) := by
    rw [Descriptors.find, hfd, if_pos ⟨Int.natCast_nonneg n, by omega⟩, Int.toNat_natCast, hfile]
    rfl
  obtain ⟨-, hresult, hbytes⟩ := hholds.read len
  rw [FileCall.step, Descriptors.sysRead, hfind]
  exact congrArg₂ SysReply.mk hresult hbytes

/-- An open file is what it was when it was opened: the number that `Open` returns was free, the
tree has a file at the path that is not empty and has at most 64 KiB, and until the number is closed
the reads under it deliver this file from its beginning, each of them as much as it asks for or as
is left, whatever becomes of the file, of the disk and of the other descriptors. -/
theorem open_is_snapshot (hgeo : Geometry fs) (h : HasFiles fs s v) {path : List Byte}
    {memory : Option Buffer} {n : Nat}
    (hopen : ((FileCall.openFile path memory).step fs s).2.result = n) :
    (3 ≤ n ∧ n < 16 ∧ s.descriptors.fds n = none) ∧
      ∃ b, v.tree.fileAt path = some b ∧ b ≠ [] ∧ b.length ≤ 65536 ∧
        ∀ run s', FileRun fs ((FileCall.openFile path memory).step fs s).1 run s' →
          (∀ x ∈ run, ¬x.2.Closes n) → ∃ rest, delivered fs n run ++ rest = b ∧
            ∀ (fd : BitVec 64) typed len, (fd.setWidth 32).toInt = n →
              ((FileCall.read fd typed len).step fs s').2 =
                ⟨(min len rest.length : Nat), rest.take len⟩ := by
  obtain ⟨hreply, hnext⟩ := @HasFiles.step fs s v h hgeo (.openFile path memory) fun _ _ => trivial
  rw [hreply] at hopen
  rcases onView_openFile v path memory with heq | ⟨k, hfree, hne, heq⟩
  · rw [heq] at hopen
    dsimp only at hopen
    omega
  · rw [heq] at hopen hnext
    obtain rfl : k = n := Int.ofNat_inj.mp hopen
    obtain ⟨hrange, hnone⟩ := FileView.freeNumber_spec hfree
    obtain ⟨hfile, hlen⟩ := VolumeTree.fileAt_of_readAt hne
    have hfd := h.numbers k
    rw [hnone] at hfd
    generalize s.descriptors.fds k = o at hfd
    cases hfd
    have hhas : ((FileCall.openFile path memory).step fs s).1.Has k (v.tree.readAt path 65536) := by
      have hk := hnext.numbers k
      rw [show (v.set k _).numbers k = _ from Function.update_self ..] at hk
      generalize hfds : ((FileCall.openFile path memory).step fs s).1.descriptors.fds k = o at hk
      cases hk with
      | file hholds => exact ⟨_, hfds, hholds⟩
    refine ⟨⟨hrange.1, hrange.2, rfl⟩, _, hfile, hne, hlen, fun run s' hrun hkept => ?_⟩
    obtain ⟨rest, hall, hleft⟩ := hhas.afterRun hrun hkept
    exact ⟨rest, hall, fun fd typed len hfd => hleft.read hrange.2 hfd typed len⟩

/-- `InitializeIO`, with whatever is in the memory of the keyboard descriptor. -/
def initializeIO (buffer : Nat → Byte) : Nat → Option FileDescriptor
  | 0 => some (.keyboard (.create buffer))
  | 1 | 2 => some .console
  | _ => none

/-- The numbers at the start. -/
def initialNumbers (buffer : Nat → Byte) (n : Nat) : Option OpenFile :=
  initializeIO buffer n |>.map .device

/-- At the start no file is open. -/
theorem HasTree.initial {d : Disk} {t : VolumeTree} (h : HasTree fs d t) (buffer : Nat → Byte)
    (console : Console) :
    HasFiles fs ⟨some d, { fds := initializeIO buffer, console := console }⟩
      ⟨t, initialNumbers buffer, console⟩ where
  disk := ⟨d, rfl, h⟩
  numbers
    | 0 | 1 | 2 => .device trivial
    | _ + 3 => .free
  console := rfl

/-- The file `A` of three bytes is written. -/
def writeA : FileCall :=
  .change [] (.writeFile (oneLetter 0x41#8) (fun k => BitVec.ofNat 8 (k + 1)) 3 0)

/-- It is opened. -/
def openA : FileCall := .openFile [0x2F#8, 0x61#8] (some fun _ => 0)

/-- It is deleted, and then read under its path and under its number. -/
def deleteA : List FileCall := [.deleteFile [0x61#8], .readFile [0x61#8] 512, .read 3 [] 512]

/-- A system with an empty disk. -/
def blankFiles : FileState :=
  ⟨some blankDisk, { fds := initializeIO fun _ => 0, console := some [] }⟩

/-- What programs have of it. -/
def blankView : FileView := ⟨Tree.empty, initialNumbers fun _ => 0, some []⟩

theorem blankFiles_hasFiles : HasFiles smallVolume blankFiles blankView :=
  (blankDisk_formatted.hasTree blankDisk_wellFormed).initial _ _

/-- The run that makes the calls. -/
def runFrom (s : FileState) (calls : List FileCall) : List (FileState × FileCall) × FileState :=
  Transition.record (fun s c => (c.step smallVolume s).1) [] s calls

theorem fileRun_runFrom (s : FileState) (calls : List FileCall) :
    FileRun smallVolume s (runFrom s calls).1 (runFrom s calls).2 :=
  .record (.start rfl) (.of_forall fun _ _ => trivial)

theorem writeA_permitted : writeA.Permitted smallVolume blankDisk Tree.empty := by
  have heval : smallVolume.clustersFor 3 ≤ (smallVolume.view blankDisk).freeClusters.length ∧
      FreeSlot smallVolume (smallVolume.view blankDisk) (smallVolume.directoryOf 0) := by
    decide +kernel
  refine ⟨.root, ⟨by decide, rfl, by decide, by decide⟩, ?_⟩
  rintro ⟨-, hlacks | hfull⟩
  · exact absurd heval.1 (Nat.not_le.mpr hlacks)
  · exact hfull heval.2

/-- The file is deleted while it is open: the path leads nowhere any more, but the number still has
the file. -/
theorem file_calls_run_small :
    (runFrom blankFiles (writeA :: openA :: deleteA)).1.map
        (fun x => (x.2.step smallVolume x.1).2) =
      [⟨3, [1, 2, 3]⟩, ⟨0, []⟩, ⟨0, []⟩, ⟨3, []⟩, ⟨0, []⟩] := by
  have hperm : FilesPermitted smallVolume blankView
      (runFrom blankFiles (writeA :: openA :: deleteA)).1 := by
    refine ⟨fun _ _ => trivial, fun _ _ => trivial, fun _ _ => ?_, fun _ _ => trivial,
      fun d hd => ?_, trivial⟩
    · show FileTree.Tree.node _ _ ≠ _
      decide +kernel
    · obtain rfl := Option.some.inj hd
      exact writeA_permitted
  obtain ⟨hreplies, -⟩ := file_calls_run smallVolume_geometry blankFiles_hasFiles
    (fileRun_runFrom _ _) hperm
  rw [runFrom, deleteA] at hreplies ⊢
  simp only [Transition.record, Transition.Throughout, and_true] at hreplies
  obtain ⟨hread, hreadFile, hdelete, hopen, hwrite⟩ := hreplies
  simp only [Transition.record, List.map_cons, List.map_nil]
  rw [hread, hreadFile, hdelete, hopen, hwrite]
  decide +kernel

/-- The reads after that deliver nothing else. -/
theorem open_is_snapshot_small : ∃ rest, delivered smallVolume 3
    (runFrom (openA.step smallVolume (writeA.step smallVolume blankFiles).1).1 deleteA).1 ++ rest =
      [1, 2, 3] := by
  obtain ⟨-, hfiles⟩ := @HasFiles.step _ _ _ blankFiles_hasFiles smallVolume_geometry writeA
    fun d hd => by
      obtain rfl := Option.some.inj hd
      exact writeA_permitted
  obtain ⟨hreply, -⟩ := @HasFiles.step _ _ _ hfiles smallVolume_geometry openA fun _ _ => trivial
  have hopen : (openA.step smallVolume (writeA.step smallVolume blankFiles).1).2.result =
      (3 : Nat) := by
    rw [hreply]
    decide +kernel
  obtain ⟨-, b, hfile, -, -, hdelivers⟩ := open_is_snapshot smallVolume_geometry hfiles hopen
  have hb : (writeA.onView blankView).1.tree.fileAt [0x2F#8, 0x61#8] = some [1, 2, 3] := by
    decide +kernel
  obtain rfl : b = [1, 2, 3] := Option.some.inj (hfile.symm.trans hb)
  have hkept (s : FileState) : ∀ x ∈ (runFrom s deleteA).1, ¬x.2.Closes 3 := by
    rw [runFrom, deleteA]
    simp only [Transition.record, List.forall_mem_cons]
    exact ⟨id, id, id, nofun⟩
  obtain ⟨rest, hrest, -⟩ := hdelivers _ _ (fileRun_runFrom _ deleteA) (hkept _)
  exact ⟨rest, hrest⟩

end Runs

end Sylphia
