import Sylphia.Sys.LoadEffects

/-!
# The file buffer in memory

The buffer that a file is loaded from lies in the address space that its segments are loaded into.
The pages of a segment, and the bytes written for it, can take the place of what is still to be
read. Where they do not, the headers and the data are read as they were at the start.
-/

namespace Sylphia

open Bytes Packed Wrapping

/-- The memory of the process after an event, with the file at `fileBuf`. An allocation puts
zeroed frames in the place of the pages that it is for. -/
def LoadEvent.apply (fileBuf : Nat) (mem : Buffer) : LoadEvent → Buffer
  | .allocateVirtual addr size _ => fun x => if InPages addr size x then 0 else mem x
  | .copy dest offset len => fun x =>
    if InRange (2 ^ 64) dest len x then
      mem ((fileBuf + (offset + (x + 2 ^ 64 - dest) % 2 ^ 64)) % 2 ^ 64)
    else mem x
  | .clear dest len => fun x => if InRange (2 ^ 64) dest len x then 0 else mem x

/-- The memory of the process after a load. -/
def replay (fileBuf : Nat) (log : List LoadEvent) (mem : Buffer) : Buffer :=
  log.foldl (LoadEvent.apply fileBuf) mem

/-- The bytes from `fileBuf` on. -/
def bytesFrom (fileBuf : Nat) (mem : Buffer) : Buffer := fun k => mem ((fileBuf + k) % 2 ^ 64)

/-- A file buffer at `fileBuf`. -/
def heldAt (fileBuf : Nat) (mem : Buffer) : FileBuffer :=
  fun log => bytesFrom fileBuf (replay fileBuf log mem)

/-- The event changes the byte at the address. -/
def LoadEvent.Changes (x : Nat) : LoadEvent → Prop
  | .allocateVirtual addr size _ => InPages addr size x
  | .copy dest _ len | .clear dest len => InRange (2 ^ 64) dest len x

/-- Two buffers have the same bytes where `R` says so. -/
def SameOn (R : Nat → Prop) (a b : Buffer) : Prop := ∀ k, R k → a k = b k

namespace Elf64Phdr

/-- No page of the segment, and no byte written for it, is in the part `R` of a buffer at
`fileBuf`. -/
def ClearOf (ph : Elf64Phdr) (fileBuf : Nat) (R : Nat → Prop) : Prop :=
  ∀ k, R k → ¬ InPages ph.startPage ph.allocSize ((fileBuf + k) % 2 ^ 64) ∧
    ¬ InRange (2 ^ 64) ph.pVaddr (max ph.pFilesz ph.pMemsz) ((fileBuf + k) % 2 ^ 64)

end Elf64Phdr

/-- The part `R` of the buffer stays as it is while the segments are loaded. -/
def FileBuffer.Kept (file : FileBuffer) (R : Nat → Prop) (phs : List Elf64Phdr) : Prop :=
  ∀ ph ∈ phs, ∀ log, SameOn R (file (log ++ [ph.allocation])) (file log) ∧
    ∀ pm, SameOn R (file (log ++ ph.events pm)) (file log)

section Memory

variable {fileBuf x : Nat} {mem : Buffer} {R : Nat → Prop} {ph : Elf64Phdr}
  {phs : List Elf64Phdr} {es : List LoadEvent}

theorem LoadEvent.apply_of_not_changes {e : LoadEvent} (h : ¬ e.Changes x) :
    e.apply fileBuf mem x = mem x := by
  cases e with
  | allocateVirtual addr size flags => exact if_neg h
  | copy dest offset len => exact if_neg h
  | clear dest len => exact if_neg h

theorem replay_of_not_changes (h : ∀ e ∈ es, ¬ e.Changes x) : replay fileBuf es mem x = mem x := by
  induction es generalizing mem with
  | nil => rfl
  | cons e es ih =>
    rw [List.forall_mem_cons] at h
    exact (ih h.2).trans (LoadEvent.apply_of_not_changes h.1)

theorem replay_append (log es : List LoadEvent) :
    replay fileBuf (log ++ es) mem = replay fileBuf es (replay fileBuf log mem) :=
  List.foldl_append

theorem Elf64Phdr.ClearOf.not_changes (h : ph.ClearOf fileBuf R) {k : Nat} (hk : R k)
    {e : LoadEvent}
    (he : e ∈ ph.allocation :: ph.fill) : ¬ e.Changes ((fileBuf + k) % 2 ^ 64) := by
  obtain ⟨hpages, hbytes⟩ := h k hk
  rcases List.mem_cons.mp he with rfl | he
  · exact hpages
  · refine fun hc => hbytes ((Elf64Phdr.writes_fill (Nat.mod_lt _ (by decide))).mp ⟨e, he, ?_⟩)
    rcases List.mem_cons.mp he with rfl | he
    · exact hc
    · split at he
      · rw [List.mem_singleton.mp he] at hc ⊢
        exact hc
      · cases he

theorem Elf64Phdr.events_subset (ph : Elf64Phdr) (pm : PageManager) :
    ph.events pm ⊆ ph.allocation :: ph.fill := by
  rw [Elf64Phdr.events]
  refine List.cons_subset_cons _ ?_
  split
  · exact fun _ he => he
  · exact fun _ he => absurd he List.not_mem_nil

/-- A buffer that the segments are clear of is kept. -/
theorem heldAt_kept (h : ∀ ph ∈ phs, ph.ClearOf fileBuf R) : (heldAt fileBuf mem).Kept R phs := by
  have hsame {ph : Elf64Phdr} (hph : ph ∈ phs) (log : List LoadEvent) {es : List LoadEvent}
      (hes : es ⊆ ph.allocation :: ph.fill) :
      SameOn R (heldAt fileBuf mem (log ++ es)) (heldAt fileBuf mem log) := by
    intro k hk
    rw [heldAt, heldAt, bytesFrom, bytesFrom, replay_append]
    exact replay_of_not_changes fun e he => (h ph hph).not_changes hk (hes he)
  exact fun ph hph log => ⟨hsame hph log (by simp), fun pm => hsame hph log (ph.events_subset pm)⟩

end Memory

section Congr

variable {a b : Buffer} {off : Nat}

theorem fieldAt_congr {n : Nat} (h : ∀ k < n, a (off + k) = b (off + k)) :
    fieldAt a off n = fieldAt b off n := by
  rw [fieldAt, fieldAt, slice_congr h]

theorem phdrAt_congr (h : ∀ k < phdrSize, a (off + k) = b (off + k)) :
    phdrAt a off = phdrAt b off := by
  rw [phdrSize] at h
  have hfield {i n : Nat} (hn : i + n ≤ 56) : fieldAt a (off + i) n = fieldAt b (off + i) n :=
    fieldAt_congr fun k hk => by
      rw [Nat.add_assoc]
      exact h _ (by omega)
  have hfirst : fieldAt a off 4 = fieldAt b off 4 := fieldAt_congr fun k hk => h k (by omega)
  rw [phdrAt, phdrAt, hfirst, hfield (by decide), hfield (by decide), hfield (by decide),
    hfield (by decide)]

end Congr

section Kept

variable {store : Store} {file : FileBuffer} {R : Nat → Prop} {phs : List Elf64Phdr} {buf : Buffer}
  {s : LoadState}

theorem SameOn.trans {a b c : Buffer} (h : SameOn R a b) (h' : SameOn R b c) : SameOn R a c :=
  fun k hk => (h k hk).trans (h' k hk)

/-- The buffer is kept while segments are loaded one after the other. -/
theorem FileBuffer.Kept.events (h : file.Kept R phs) {xs : List (Elf64Phdr × PageManager)}
    (hxs : ∀ x ∈ xs, x.1 ∈ phs) (log : List LoadEvent) :
    SameOn R (file (log ++ xs.flatMap fun x => x.1.events x.2)) (file log) := by
  induction xs generalizing log with
  | nil => simp [SameOn]
  | cons x xs ih =>
    rw [List.forall_mem_cons] at hxs
    rw [List.flatMap_cons, ← List.append_assoc]
    exact (ih hxs.2 _).trans ((h x.1 hxs.1 log).2 x.2)

namespace RustLoader

/-- So it is kept by the loop of `load_segments`. -/
theorem sameOn_loadSegments
    (h : file.Kept R (phs.filter fun ph => ph.pType = PT_LOAD)) (hs : SameOn R (file s.log) buf) :
    SameOn R (file (loadSegments store file phs s).2.log) buf := by
  rw [log_loadSegments]
  refine (h.events (fun x hx => ?_) _).trans hs
  obtain ⟨hmem, ht, -⟩ := mem_of_reached hx
  exact List.mem_filter.mpr ⟨hmem, decide_eq_true ht⟩

/-- The headers are read as they were at the start. -/
theorem headersRead_eq {offsets : List Nat}
    (h : file.Kept R ((offsets.map (phdrAt buf)).filter fun ph => ph.pType = PT_LOAD))
    (hR : ∀ offset ∈ offsets, ∀ k < phdrSize, R (offset + k)) (hs : SameOn R (file s.log) buf) :
    headersRead store file offsets s = offsets.map (phdrAt buf) := by
  induction offsets generalizing s with
  | nil => rfl
  | cons offset offsets ih =>
    rw [List.forall_mem_cons] at hR
    have hhead : phdrAt (file s.log) offset = phdrAt buf offset :=
      phdrAt_congr fun k hk => hs _ (hR.1 k hk)
    have hfirst : file.Kept R ([phdrAt buf offset].filter fun ph => ph.pType = PT_LOAD) := by
      refine fun ph hph => h ph ?_
      rw [List.map_cons]
      exact ((List.singleton_sublist.mpr List.mem_cons_self).filter _).subset hph
    have hrest : file.Kept R ((offsets.map (phdrAt buf)).filter fun ph => ph.pType = PT_LOAD) := by
      refine fun ph hph => h ph ?_
      rw [List.map_cons]
      exact ((List.sublist_cons_self _ _).filter _).subset hph
    rw [headersRead, hhead, List.map_cons,
      ih hrest hR.2 (sameOn_loadSegments hfirst hs)]

end RustLoader

end Kept

end Sylphia
