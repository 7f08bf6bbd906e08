import Sylphia.Disk.Gpt
import Sylphia.Fat.LastWrite

/-!
# The sectors in front of the FATs

Whatever is on the device, the driver writes only sectors of the FATs and of clusters, and so
none in front of the first FAT: the partition table and the boot sector stay. This needs no
invariant of the volume, and it holds after every single sector write.
-/

namespace Sylphia

open Bytes WriteLog FAT32Driver

/-- From `dev` to `dev'` no sector in front of the FATs is written. -/
abbrev KeepsReserved (fs : FAT32Driver) : BlockDevice → BlockDevice → Prop :=
  Logged.Within (fs.fatStartLba ≤ ·)

section Reserved

variable {fs : FAT32Driver} {dev dev' : BlockDevice} {lba n : Nat}

theorem KeepsReserved.refl (fs : FAT32Driver) (dev : BlockDevice) : KeepsReserved fs dev dev :=
  Logged.Within.refl _ dev

theorem KeepsReserved.ite (p : Prop) [Decidable p] (h : KeepsReserved fs dev dev') :
    KeepsReserved fs dev (if p then dev' else dev) := by
  split
  · exact h
  · exact KeepsReserved.refl fs dev

theorem reserved_writeSectors (dev : BlockDevice) (hlba : fs.fatStartLba ≤ lba) (buf : Buffer)
    (n : Nat) : KeepsReserved fs dev (BlockDevice.writeSectors dev lba buf n) :=
  (BlockDevice.within_writeSectors dev lba buf n).mono fun _ hx => hlba.trans hx.1

theorem reserved_allocateCluster (fs : FAT32Driver) (dev : BlockDevice) :
    KeepsReserved fs dev (fs.allocateCluster dev).2 := by
  rw [allocateCluster]
  dsimp only
  split
  · exact KeepsReserved.refl fs dev
  · exact (reserved_writeSectors dev (Nat.le_refl _) _ 1).trans
      (reserved_writeSectors _ (Nat.le_add_right _ _) _ 1)

theorem reserved_linkCluster (fs : FAT32Driver) (dev : BlockDevice) (c next : Nat) :
    KeepsReserved fs dev (fs.linkCluster dev c next) :=
  (reserved_writeSectors dev (Nat.le_add_right _ _) _ 1).trans
    (reserved_writeSectors _ (by omega) _ 1)

theorem reserved_freeChainLoop {c : Nat} (h : fs.freeChainLoop n dev c = some dev') :
    KeepsReserved fs dev dev' := by
  induction n generalizing dev c with
  | zero => cases h
  | succ n ih =>
    rw [freeChainLoop] at h
    split at h
    · exact (reserved_linkCluster fs dev c 0).trans (ih h)
    · rw [← Option.some.inj h]
      exact KeepsReserved.refl fs dev

theorem reserved_addEntryLoop (dev : BlockDevice) (e : DirectoryEntry) (n : Nat)
    (hlba : fs.fatStartLba ≤ lba) : KeepsReserved fs dev (addEntryLoop dev e n lba) := by
  induction n generalizing lba with
  | zero => exact KeepsReserved.refl fs dev
  | succ n ih =>
    rw [addEntryLoop]
    split
    · exact reserved_writeSectors dev hlba _ 1
    · exact ih (Nat.le_add_right_of_le hlba)

/-- The FATs are in front of the data. -/
def DataBehind (fs : FAT32Driver) : Prop := fs.fatStartLba ≤ fs.dataStartLba

theorem DataBehind.cluster (h : DataBehind fs) (c : Nat) : fs.fatStartLba ≤ fs.clusterToLBA c :=
  Nat.le_trans h (dataStart_le_clusterToLBA fs c)

theorem DataBehind.addDirectoryEntry (h : DataBehind fs) (dev : BlockDevice) (name : List Byte)
    (first size : Nat) (attr : Byte) (parentCluster : Nat) :
    KeepsReserved fs dev (fs.addDirectoryEntry dev name first size attr parentCluster) :=
  reserved_addEntryLoop dev _ fs.secPerClus (h.cluster _)

theorem DataBehind.writeSlot (h : DataBehind fs) (dev : BlockDevice) (buf : Buffer) (s : Slot)
    (e : DirectoryEntry) : KeepsReserved fs dev (fs.writeSlot dev buf s e) :=
  reserved_writeSectors dev (Nat.le_add_right_of_le (h.cluster s.cluster)) _ 1

theorem DataBehind.createDirectory (h : DataBehind fs) (dev : BlockDevice) (name : List Byte)
    (parentCluster : Nat) : KeepsReserved fs dev (fs.createDirectory dev name parentCluster).2 := by
  have halloc := reserved_allocateCluster fs dev
  rw [FAT32Driver.createDirectory]
  generalize fs.allocateCluster dev = r at halloc
  obtain ⟨c, dev₁⟩ := r
  dsimp only at halloc ⊢
  split
  · exact halloc
  · exact ((halloc.trans (reserved_writeSectors dev₁ (h.cluster c) _ _)).trans
      (reserved_linkCluster fs _ c _)).trans (h.addDirectoryEntry _ name c 0 _ parentCluster)

theorem DataBehind.writeLoop (h : DataBehind fs) {data : Buffer}
    {n remaining offset first prev : Nat} {r : Option (Nat × Nat)}
    (heq : fs.writeLoop data n dev remaining offset first prev = some (r, dev')) :
    KeepsReserved fs dev dev' := by
  induction n generalizing dev remaining offset first prev with
  | zero => cases heq
  | succ n ih =>
    have halloc := reserved_allocateCluster fs dev
    rw [FAT32Driver.writeLoop] at heq
    split at heq
    · cases heq
      exact KeepsReserved.refl fs _
    generalize fs.allocateCluster dev = a at halloc heq
    obtain ⟨c, dev₁⟩ := a
    dsimp only at halloc heq
    split at heq
    · cases heq
      exact halloc
    · have hlink : KeepsReserved fs dev₁
          (if first = 0 then dev₁ else fs.linkCluster dev₁ prev c) := by
        split
        · exact KeepsReserved.refl fs dev₁
        · exact reserved_linkCluster fs dev₁ prev c
      exact ((halloc.trans hlink).trans (reserved_writeSectors _ (h.cluster c) _ _)).trans (ih heq)

theorem DataBehind.writeFile (h : DataBehind fs) (dev : BlockDevice) (name : List Byte)
    (data : Buffer) (size parentCluster : Nat) :
    KeepsReserved fs dev (fs.writeFile dev name data size parentCluster) := by
  rw [FAT32Driver.writeFile, writeWithin]
  split
  · exact KeepsReserved.refl fs dev
  cases hloop : fs.writeLoop data (size + 1) dev size 0 0 0 with
  | none => exact KeepsReserved.refl fs dev
  | some r =>
    obtain ⟨_ | ⟨first, last⟩, dev₁⟩ := r
    · exact h.writeLoop hloop
    · exact ((h.writeLoop hloop).trans (reserved_linkCluster fs dev₁ last _)).trans
        (h.addDirectoryEntry _ name first size _ parentCluster)

theorem DataBehind.appendLoop (h : DataBehind fs) {data : Buffer}
    {n remaining offset prev last : Nat}
    (heq : fs.appendLoop data n dev remaining offset prev = some (last, dev')) :
    KeepsReserved fs dev dev' := by
  induction n generalizing dev remaining offset prev with
  | zero => cases heq
  | succ n ih =>
    have halloc := reserved_allocateCluster fs dev
    rw [FAT32Driver.appendLoop] at heq
    split at heq
    · cases heq
      exact KeepsReserved.refl fs _
    generalize fs.allocateCluster dev = a at halloc heq
    obtain ⟨c, dev₁⟩ := a
    dsimp only at halloc heq
    split at heq
    · cases heq
      exact halloc
    · exact ((halloc.trans (reserved_linkCluster fs dev₁ prev c)).trans
        (reserved_writeSectors _ (h.cluster c) _ _)).trans (ih heq)

theorem DataBehind.appendData (h : DataBehind fs) (dev : BlockDevice) (data : Buffer)
    (size oldSize last : Nat) :
      KeepsReserved fs dev (fs.appendData dev data size oldSize last) := by
  rw [FAT32Driver.appendData]
  cases hdata : fs.appendDataWithin (size + 1) dev data size oldSize last with
  | none => exact KeepsReserved.refl fs dev
  | some dev₂ =>
    rw [appendDataWithin] at hdata
    obtain ⟨r, hloop, rfl⟩ := Option.map_eq_some_iff.mp hdata
    refine Logged.Within.trans (Logged.Within.trans ?_ (h.appendLoop hloop))
      (reserved_linkCluster fs _ _ _)
    exact KeepsReserved.ite _ (reserved_writeSectors dev (h.cluster last) _ _)

theorem DataBehind.updateEntry (h : DataBehind fs) {name : List Byte}
    {targetDir oldSize size first : Nat}
    (heq : fs.updateEntry dev name targetDir oldSize size first = some dev') :
    KeepsReserved fs dev dev' := by
  rw [FAT32Driver.updateEntry, updateWithin] at heq
  split at heq
  · cases heq
  · rw [← Option.some.inj heq]
    exact KeepsReserved.refl fs dev
  · rw [← Option.some.inj heq]
    exact h.writeSlot dev _ _ _

theorem DataBehind.appendFile (h : DataBehind fs) {name : CString} {data : Buffer}
    {size parentCluster : Nat} (heq : fs.appendFile dev name data size parentCluster = some dev') :
    KeepsReserved fs dev dev' := by
  rw [FAT32Driver.appendFile] at heq
  split at heq
  · rw [← Option.some.inj heq]
    exact KeepsReserved.refl fs dev
  dsimp only at heq
  split at heq
  · rw [← Option.some.inj heq]
    exact h.writeFile dev _ data size parentCluster
  split at heq
  · have halloc := reserved_allocateCluster fs dev
    generalize fs.allocateCluster dev = r at halloc heq
    obtain ⟨c, dev₁⟩ := r
    dsimp only at halloc heq
    split at heq
    · rw [← Option.some.inj heq]
      exact halloc
    · exact (halloc.trans (h.appendData dev₁ data size _ c)).trans (h.updateEntry heq)
  · split at heq
    · cases heq
    · exact (h.appendData dev data size _ _).trans (h.updateEntry heq)

theorem DataBehind.deleteFile (h : DataBehind fs)
    {name : List Byte} {parentCluster : Nat} {b : Bool}
    (heq : fs.deleteFile dev name parentCluster = some (b, dev')) : KeepsReserved fs dev dev' := by
  rw [FAT32Driver.deleteFile, deleteWithin] at heq
  split at heq
  · cases heq
  · cases heq
    exact KeepsReserved.refl fs dev
  · dsimp only at heq
    obtain ⟨dev₁, hfreed, heq⟩ := Option.map_eq_some_iff.mp heq
    have hfree : KeepsReserved fs dev dev₁ := by
      split at hfreed
      · rw [← Option.some.inj hfreed]
        exact KeepsReserved.refl fs dev
      · exact reserved_freeChainLoop hfreed
    cases heq
    exact hfree.trans (h.writeSlot dev₁ _ _ _)

theorem DataBehind.ensureLoop (h : DataBehind fs) (dev : BlockDevice) (n : Nat) (path : List Byte)
    (d : Nat) : KeepsReserved fs dev (fs.ensureLoop n dev path d).2 := by
  induction n generalizing dev path d with
  | zero => exact KeepsReserved.refl fs dev
  | succ n ih =>
    rw [FAT32Driver.ensureLoop]
    split
    · exact KeepsReserved.refl fs dev
    dsimp only
    split
    · exact KeepsReserved.refl fs dev
    split
    · split
      · exact ih ..
      · exact KeepsReserved.refl fs dev
    · next segment _ _ _ =>
      have hmade := h.createDirectory dev
        (to83Format ((path.takeWhile (· ≠ 0x2F#8)).take 15)) d
      generalize fs.createDirectory dev (to83Format ((path.takeWhile (· ≠ 0x2F#8)).take 15)) d = r
        at hmade
      obtain ⟨c, dev₁⟩ := r
      dsimp only at hmade ⊢
      split
      · exact hmade
      · exact hmade.trans (ih ..)

theorem DataBehind.ensureDirectory (h : DataBehind fs) (dev : BlockDevice) (path : List Byte) :
    KeepsReserved fs dev (fs.ensureDirectory dev path).2 := h.ensureLoop dev ..

theorem DataBehind.copyFileFrom (h : DataBehind fs) (dev : BlockDevice) (srcFs : FAT32Driver)
    (srcDev : BlockDevice) (srcPath dstPath : List Byte) (memory : Option Buffer) :
    KeepsReserved fs dev (fs.copyFileFrom dev srcFs srcDev srcPath dstPath memory).2 := by
  unfold FAT32Driver.copyFileFrom
  dsimp only
  split
  · exact KeepsReserved.refl fs dev
  split
  · exact KeepsReserved.refl fs dev
  split
  · exact KeepsReserved.refl fs dev
  have hdir : KeepsReserved fs dev (if dirPart dstPath = [] then (0, dev)
      else fs.ensureDirectory dev (dirPart dstPath)).2 := by
    split
    · exact KeepsReserved.refl fs dev
    · exact h.ensureDirectory dev _
  generalize (if dirPart dstPath = [] then (0, dev)
      else fs.ensureDirectory dev (dirPart dstPath)) = r at hdir
  obtain ⟨parentCluster, dev₁⟩ := r
  split
  · exact hdir
  · exact hdir.trans (h.writeFile dev₁ _ _ _ parentCluster)

/-- No operation writes in front of the FATs. -/
theorem FatOperation.keepsReserved {op : FatOperation} (h : DataBehind fs)
    (heq : op.run fs dev = some dev') : KeepsReserved fs dev dev' := by
  cases op with
  | call c =>
    cases c with
    | writeFile name data size p =>
      cases heq
      exact h.writeFile dev name data size p
    | appendFile name data size p => exact h.appendFile heq
    | deleteFile name p =>
      obtain ⟨⟨b, dev₁⟩, hdel, rfl⟩ := Option.map_eq_some_iff.mp heq
      exact h.deleteFile hdel
    | createDirectory name p =>
      cases heq
      exact h.createDirectory dev name p
  | ensureDirectory path =>
    cases heq
    exact h.ensureDirectory dev path
  | copyFileFrom srcFs srcDev srcPath dstPath memory =>
    cases heq
    exact h.copyFileFrom dev srcFs srcDev srcPath dstPath memory

end Reserved

end Sylphia
