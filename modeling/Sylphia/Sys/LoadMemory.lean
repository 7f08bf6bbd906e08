import Sylphia.Sys.FileInMemory
import Sylphia.Sys.LoadBounds

/-!
# What is in memory after a load

Every segment gets fresh pages of its own, also where a segment before it has bytes in the same
page. The memory after a load is that of its events one after the other, when each allocation
puts zeroed frames in the place of the pages it asks for.
-/

namespace Sylphia

open Bytes Packed Wrapping

namespace Elf64Phdr

variable (ph : Elf64Phdr)

/-- The address is in the segment. -/
def Occupies (x : Nat) : Prop := ph.pVaddr ≤ x ∧ x < ph.pVaddr + ph.pMemsz

instance decidableOccupies (x : Nat) : Decidable (ph.Occupies x) :=
  inferInstanceAs (Decidable (_ ∧ _))

/-- The byte that the file has for an address of the segment. -/
def image (buf : Buffer) (x : Nat) : Byte :=
  if x < ph.pVaddr + ph.pFilesz then buf (ph.pOffset + (x - ph.pVaddr)) else 0

/-- The address is in one of the pages of the segment. -/
def Touches (x : Nat) : Prop := InPages ph.startPage ph.allocSize x

instance decidableTouches (x : Nat) : Decidable (ph.Touches x) :=
  inferInstanceAs (Decidable (InPages _ _ _))

/-- No byte of the segment `p`, other than 0, is in a page of `q`. -/
def SparedBy (buf : Buffer) (p q : Elf64Phdr) : Prop :=
  ∀ k < p.pFilesz, buf (p.pOffset + k) ≠ 0 → ¬ q.Touches (p.pVaddr + k)

end Elf64Phdr

/-- Segments that lie in a file of `len` bytes, start outside the memory of the kernel, and have
addresses of their own. Two of them can still have bytes in one page. -/
structure Loadable (len : Nat) (segs : List Elf64Phdr) : Prop where
  inFile : ∀ ph ∈ segs, ph.pOffset + ph.pFilesz ≤ len
  filesz_le : ∀ ph ∈ segs, ph.pFilesz ≤ ph.pMemsz
  noWrap : ∀ ph ∈ segs, ph.pVaddr + ph.pMemsz ≤ 2 ^ 64
  outside : ∀ ph ∈ segs, ¬ ph.InKernel
  disjoint : segs.Pairwise fun ph q => ∀ x, ¬ (ph.Occupies x ∧ q.Occupies x)

/-- Every address of a segment has its byte of the file, or 0 behind these. -/
def Faithful (buf : Buffer) (segs : List Elf64Phdr) (mem : Buffer) : Prop :=
  ∀ ph ∈ segs, ∀ x, ph.Occupies x → mem x = ph.image buf x

/-- A segment is loaded from the part `R` of the buffer, and not over it. -/
structure Elf64Phdr.LoadsFrom (ph : Elf64Phdr) (fileBuf : Nat) (R : Nat → Prop) : Prop where
  widths : ph.Widths
  filesz_le : ph.pFilesz ≤ ph.pMemsz
  noWrap : ph.pVaddr + ph.pMemsz ≤ 2 ^ 64
  inFile : ∀ k < ph.pFilesz, R (ph.pOffset + k)
  clear : ph.ClearOf fileBuf R

namespace Elf64Phdr

variable {ph : Elf64Phdr} {buf mem : Buffer} {x fileBuf : Nat} {R : Nat → Prop}

/-- The buffer is kept. -/
theorem LoadsFrom.sameOn (h : ph.LoadsFrom fileBuf R)
    (hs : SameOn R (bytesFrom fileBuf mem) buf) :
    SameOn R (bytesFrom fileBuf (replay fileBuf (ph.allocation :: ph.fill) mem)) buf :=
  fun k hk =>
    (replay_of_not_changes fun _ he => h.clear.not_changes hk he).trans (hs k hk)

/-- One segment: its own bytes, zeros in the rest of its pages, and what was there elsewhere. -/
theorem LoadsFrom.replay_eq (h : ph.LoadsFrom fileBuf R)
    (hs : SameOn R (bytesFrom fileBuf mem) buf) (hx : x < 2 ^ 64) :
    replay fileBuf (ph.allocation :: ph.fill) mem x =
      if ph.Occupies x then ph.image buf x
      else if ph.Touches x then 0 else mem x := by
  obtain ⟨hw, hle, hwrap, hin, hclearOf⟩ := h
  have hcopy : InRange (2 ^ 64) ph.pVaddr ph.pFilesz x ↔
      ph.pVaddr ≤ x ∧ x < ph.pVaddr + ph.pFilesz := inRange_of_le hw.vaddr (by omega) hx
  have hbyte (hge : ph.pVaddr ≤ x) (hlt : x < ph.pVaddr + ph.pFilesz) :
      ph.allocation.apply fileBuf mem
        ((fileBuf + (ph.pOffset + (x + 2 ^ 64 - ph.pVaddr) % 2 ^ 64)) % 2 ^ 64) =
      buf (ph.pOffset + (x - ph.pVaddr)) := by
    have hk : x - ph.pVaddr < ph.pFilesz := by omega
    rw [show (x + 2 ^ 64 - ph.pVaddr) % 2 ^ 64 = x - ph.pVaddr by omega]
    exact (LoadEvent.apply_of_not_changes
      (hclearOf.not_changes (hin _ hk) List.mem_cons_self)).trans (hs _ (hin _ hk))
  have hocc : ph.Occupies x ↔ ph.pVaddr ≤ x ∧ x < ph.pVaddr + ph.pMemsz := Iff.rfl
  have halloc : ph.allocation.apply fileBuf mem x = if ph.Touches x then 0 else mem x := rfl
  rw [fill, replay, List.foldl_cons, List.foldl_cons, image]
  by_cases hlt : ph.pMemsz > ph.pFilesz
  · have hclear : InRange (2 ^ 64) ((ph.pVaddr + ph.pFilesz) % 2 ^ 64)
        (ph.pMemsz - ph.pFilesz) x ↔ ph.pVaddr + ph.pFilesz ≤ x ∧ x < ph.pVaddr + ph.pMemsz := by
      rw [Nat.mod_eq_of_lt (by omega), inRange_of_le (by omega) (by omega) hx]
      omega
    rw [if_pos hlt, List.foldl_cons, List.foldl_nil, LoadEvent.apply, LoadEvent.apply]
    simp only [hcopy, hclear]
    by_cases hin : ph.Occupies x
    · rw [if_pos hin]
      rw [hocc] at hin
      by_cases hfile : x < ph.pVaddr + ph.pFilesz
      · have hfront : ¬ (ph.pVaddr + ph.pFilesz ≤ x ∧ x < ph.pVaddr + ph.pMemsz) := by omega
        rw [if_neg hfront, if_pos ⟨hin.1, hfile⟩, if_pos hfile]
        exact hbyte hin.1 hfile
      · rw [if_pos ⟨Nat.le_of_not_lt hfile, hin.2⟩, if_neg hfile]
    · rw [if_neg hin]
      rw [hocc] at hin
      rw [if_neg fun hc => hin (by omega), if_neg fun hc => hin (by omega)]
      exact halloc
  · rw [if_neg hlt, List.foldl_nil, LoadEvent.apply]
    simp only [hcopy]
    by_cases hin : ph.Occupies x
    · rw [if_pos hin]
      rw [hocc] at hin
      have hfile : x < ph.pVaddr + ph.pFilesz := by omega
      rw [if_pos ⟨hin.1, hfile⟩, if_pos hfile]
      exact hbyte hin.1 hfile
    · rw [if_neg hin]
      rw [hocc] at hin
      rw [if_neg fun hc => hin (by omega)]
      exact halloc

end Elf64Phdr

/-- The memory after the events of some segments. -/
def loadAll (fileBuf : Nat) (segs : List Elf64Phdr) (mem : Buffer) : Buffer :=
  replay fileBuf (segs.flatMap fun ph => ph.allocation :: ph.fill) mem

variable {buf mem : Buffer} {segs : List Elf64Phdr} {ph : Elf64Phdr} {len x fileBuf : Nat}
  {R : Nat → Prop}

theorem loadAll_cons (ph : Elf64Phdr) (segs : List Elf64Phdr) (mem : Buffer) :
    loadAll fileBuf (ph :: segs) mem =
      loadAll fileBuf segs (replay fileBuf (ph.allocation :: ph.fill) mem) := by
  rw [loadAll, loadAll, List.flatMap_cons, replay_append]

/-- Outside their own addresses, later segments leave zeros in their pages. -/
theorem loadAll_of_not_occupies (h : ∀ q ∈ segs, q.LoadsFrom fileBuf R)
    (hs : SameOn R (bytesFrom fileBuf mem) buf) (hx : x < 2 ^ 64)
    (hno : ∀ q ∈ segs, ¬ q.Occupies x) :
    loadAll fileBuf segs mem x = if ∃ q ∈ segs, q.Touches x then 0 else mem x := by
  induction segs generalizing mem with
  | nil => exact (if_neg (by simp)).symm
  | cons q segs ih =>
    rw [List.forall_mem_cons] at h hno
    rw [loadAll_cons, ih h.2 (h.1.sameOn hs) hno.2, h.1.replay_eq hs hx, if_neg hno.1]
    simp only [List.exists_mem_cons_iff]
    by_cases hq : q.Touches x
    · rw [if_pos hq, if_pos (Or.inl hq)]
      split <;> rfl
    · rw [if_neg hq]
      simp only [hq, false_or]

/-- The bytes of a segment other than 0 stay exactly when no later segment has pages there. -/
theorem sparedBy_iff (h : ph.pFilesz ≤ ph.pMemsz) :
    (∀ x, ph.Occupies x → (∃ q ∈ segs, q.Touches x) → ph.image buf x = 0) ↔
      ∀ q ∈ segs, ph.SparedBy buf q := by
  constructor
  · intro hz q hq k hk hne ht
    refine hne ?_
    have h0 := hz (ph.pVaddr + k) ⟨Nat.le_add_right _ _, by omega⟩ ⟨q, hq, ht⟩
    rwa [Elf64Phdr.image, if_pos (by omega), Nat.add_sub_cancel_left] at h0
  · rintro hs x ⟨hlo, hhi⟩ ⟨q, hq, ht⟩
    rw [Elf64Phdr.image]
    split
    · next hlt =>
      by_contra hne
      refine hs q hq (x - ph.pVaddr) (by omega) hne ?_
      rwa [Nat.add_sub_cancel' hlo]
    · rfl

theorem faithful_loadAll_iff (h : ∀ q ∈ segs, q.LoadsFrom fileBuf R)
    (hs : SameOn R (bytesFrom fileBuf mem) buf)
    (hdisjoint : segs.Pairwise fun ph q => ∀ x, ¬ (ph.Occupies x ∧ q.Occupies x)) :
    Faithful buf segs (loadAll fileBuf segs mem) ↔ segs.Pairwise (Elf64Phdr.SparedBy buf) := by
  induction segs generalizing mem with
  | nil => exact iff_of_true (fun ph hph => absurd hph List.not_mem_nil) List.Pairwise.nil
  | cons ph segs ih =>
    rw [List.forall_mem_cons] at h
    rw [List.pairwise_cons] at hdisjoint
    rw [Faithful, List.forall_mem_cons, List.pairwise_cons, loadAll_cons,
      ← sparedBy_iff h.1.filesz_le]
    refine and_congr (forall_congr' fun x => forall_congr' fun hocc => ?_)
      (ih h.2 (h.1.sameOn hs) hdisjoint.2)
    have hx : x < 2 ^ 64 := hocc.2.trans_le h.1.noWrap
    rw [loadAll_of_not_occupies h.2 (h.1.sameOn hs) hx fun q hq hq' =>
        hdisjoint.1 q hq x ⟨hocc, hq'⟩, h.1.replay_eq hs hx, if_pos hocc]
    split
    · next ht => exact ⟨fun he _ => he.symm, fun he => (he ht).symm⟩
    · next ht => exact iff_of_true rfl fun hc => absurd hc ht

namespace RustLoader

variable {store : Store} {pm : PageManager} {ehdr : Elf64Ehdr}

/-- The segments of the file that are to be loaded. -/
def segments (buf : Buffer) (len : Nat) (ehdr : Elf64Ehdr) : List Elf64Phdr :=
  (getProgramHeaders buf len ehdr).filter fun ph => ph.pType = PT_LOAD

/-- What `load_segments` reads: the file, and the program headers. -/
def ReadFrom (len : Nat) (ehdr : Elf64Ehdr) (k : Nat) : Prop :=
  k < len ∨ ∃ offset ∈ headerOffsets len ehdr, ∃ j < phdrSize, k = offset + j

/-- No segment is loaded over what is read of the file. -/
def SparesFile (fileBuf : Nat) (mem : Buffer) (len : Nat) (ehdr : Elf64Ehdr) : Prop :=
  ∀ ph ∈ segments (bytesFrom fileBuf mem) len ehdr, ph.ClearOf fileBuf (ReadFrom len ehdr)

/-- No segment is loaded over what is read of the file, and no byte of a segment other than 0 is
in a page of a later one. -/
structure LoadsApart (fileBuf : Nat) (mem : Buffer) (len : Nat) (ehdr : Elf64Ehdr) : Prop where
  file : SparesFile fileBuf mem len ehdr
  segments : (segments (bytesFrom fileBuf mem) len ehdr).Pairwise
    (Elf64Phdr.SparedBy (bytesFrom fileBuf mem))

theorem faithful_iff (h : Loadable len (segments (bytesFrom fileBuf mem) len ehdr))
    (hfile : SparesFile fileBuf mem len ehdr)
    (hok : (loadReferences store (heldAt fileBuf mem) (headerOffsets len ehdr) ⟨pm, []⟩).1 =
      .ok ()) :
    Faithful (bytesFrom fileBuf mem) (segments (bytesFrom fileBuf mem) len ehdr)
        (replay fileBuf
          (loadReferences store (heldAt fileBuf mem) (headerOffsets len ehdr) ⟨pm, []⟩).2.log
          mem) ↔
      (segments (bytesFrom fileBuf mem) len ehdr).Pairwise
        (Elf64Phdr.SparedBy (bytesFrom fileBuf mem)) := by
  have hread : headersRead store (heldAt fileBuf mem) (headerOffsets len ehdr) ⟨pm, []⟩ =
      getProgramHeaders (bytesFrom fileBuf mem) len ehdr :=
    headersRead_eq (heldAt_kept hfile)
      (fun offset hoffset k hk => Or.inr ⟨offset, hoffset, k, hk, rfl⟩) fun _ _ => rfl
  rw [loadReferences_eq, hread] at hok ⊢
  obtain ⟨hsegs, hall⟩ := reached_of_ok hok
  have hlog : (loadSegments store (heldAt fileBuf mem)
      (getProgramHeaders (bytesFrom fileBuf mem) len ehdr) ⟨pm, []⟩).2.log =
      (segments (bytesFrom fileBuf mem) len ehdr).flatMap fun ph => ph.allocation :: ph.fill := by
    rw [log_loadSegments, List.nil_append, segments, ← hsegs, List.flatMap_map]
    refine List.flatMap_congr fun x hx => ?_
    rw [Elf64Phdr.events, if_pos (hall x hx)]
  have hloads : ∀ ph ∈ segments (bytesFrom fileBuf mem) len ehdr,
      ph.LoadsFrom fileBuf (ReadFrom len ehdr) := by
    intro ph hph
    obtain ⟨offset, -, hheader⟩ := List.mem_map.mp (List.mem_filter.mp hph).1
    have hin := h.inFile ph hph
    exact ⟨hheader ▸ widths_phdrAt _ _, h.filesz_le ph hph, h.noWrap ph hph,
      fun k hk => Or.inl (by omega), hfile ph hph⟩
  rw [hlog]
  exact faithful_loadAll_iff hloads (fun _ _ => rfl) h.disjoint

/-- After a load that succeeds, the segments are in memory as they are in the file when none is
loaded over what is read of the file and no byte other than 0 is in a page of a later segment;
among the files whose segments stay clear of it, only then. -/
theorem loadSegments_faithful_when
    (h : Loadable len (segments (bytesFrom fileBuf mem) len ehdr))
    (hok : (loadReferences store (heldAt fileBuf mem) (headerOffsets len ehdr) ⟨pm, []⟩).1 =
      .ok ()) :
    (LoadsApart fileBuf mem len ehdr →
        Faithful (bytesFrom fileBuf mem) (segments (bytesFrom fileBuf mem) len ehdr)
          (replay fileBuf (loadReferences store (heldAt fileBuf mem) (headerOffsets len ehdr)
            ⟨pm, []⟩).2.log mem)) ∧
      (SparesFile fileBuf mem len ehdr →
        Faithful (bytesFrom fileBuf mem) (segments (bytesFrom fileBuf mem) len ehdr)
          (replay fileBuf (loadReferences store (heldAt fileBuf mem) (headerOffsets len ehdr)
            ⟨pm, []⟩).2.log mem) →
        LoadsApart fileBuf mem len ehdr) := by
  constructor
  · intro ha
    exact (faithful_iff h ha.file hok).mpr ha.segments
  · intro hfile hf
    exact ⟨hfile, (faithful_iff h hfile hok).mp hf⟩

/-- Where the headers are in the file, the file is all that is read. -/
theorem SparesFile.of_headers (hin : ∀ offset ∈ headerOffsets len ehdr, offset + phdrSize ≤ len)
    (h : ∀ ph ∈ segments (bytesFrom fileBuf mem) len ehdr, ph.ClearOf fileBuf (· < len)) :
    SparesFile fileBuf mem len ehdr := by
  rintro ph hph k (hk | ⟨offset, hoffset, j, hj, rfl⟩)
  · exact h ph hph k hk
  · have hlast := hin offset hoffset
    exact h ph hph _ (show _ < len by omega)

/-- Memory with a file of two segments of one byte at 8 MB, the first segment for 16 MB. -/
def twoSegments (vaddr : Nat) : Buffer := fun x =>
  buffer (elfImage ehdrSize
    [⟨PT_LOAD, 176, 0x1000000, 1, 1⟩, ⟨PT_LOAD, 177, vaddr, 1, 1⟩] [0xC3, 0x90]) (x - 0x800000)

/-- The header of the file. -/
def twoHeader (vaddr : Nat) : Elf64Ehdr := ehdrOf (bytesFrom 0x800000 (twoSegments vaddr))

/-- Segments in two pages stay as they are in the file. -/
theorem loadSegments_faithful_pages :
    Faithful (bytesFrom 0x800000 (twoSegments 0x1001000))
      (segments (bytesFrom 0x800000 (twoSegments 0x1001000)) 178 (twoHeader 0x1001000))
      (replay 0x800000 (loadReferences keepMemory (heldAt 0x800000 (twoSegments 0x1001000))
        (headerOffsets 178 (twoHeader 0x1001000)) ⟨loadingKernel, []⟩).2.log
          (twoSegments 0x1001000)) := by
  have hsegs : segments (bytesFrom 0x800000 (twoSegments 0x1001000)) 178 (twoHeader 0x1001000) =
      [⟨PT_LOAD, 176, 0x1000000, 1, 1⟩, ⟨PT_LOAD, 177, 0x1001000, 1, 1⟩] := by
    decide
  have hclear : ∀ v ∈ [0x1000000, 0x1001000], ∀ k < 178,
      ¬ InPages v 4096 ((0x800000 + k) % 2 ^ 64) ∧
        ¬ InRange (2 ^ 64) v 1 ((0x800000 + k) % 2 ^ 64) := by
    decide +kernel
  refine (loadSegments_faithful_when ?_ (by decide +kernel)).1 ⟨.of_headers (by decide) ?_, ?_⟩
  · rw [hsegs]
    refine ⟨by decide, by decide, by decide, by decide, ?_⟩
    simp only [List.pairwise_pair, Elf64Phdr.Occupies]
    omega
  · rw [hsegs, List.forall_mem_cons, List.forall_mem_singleton]
    exact ⟨hclear _ (by decide), hclear _ (by decide)⟩
  · rw [hsegs, List.pairwise_pair]
    intro k hk _
    obtain rfl : k = 0 := Nat.lt_one_iff.mp hk
    decide

/-- Two segments in one page: the page of the second one takes the place of that of the first. -/
theorem loadSegments_wipes : ¬ ∀ store fileBuf mem len ehdr pm, len < 2 ^ 32 →
    validateElfHeader (bytesFrom fileBuf mem) len = .ok ehdr →
    Loadable len (segments (bytesFrom fileBuf mem) len ehdr) → SparesFile fileBuf mem len ehdr →
    (loadReferences store (heldAt fileBuf mem) (headerOffsets len ehdr) ⟨pm, []⟩).1 = .ok () →
    Faithful (bytesFrom fileBuf mem) (segments (bytesFrom fileBuf mem) len ehdr)
      (replay fileBuf (loadReferences store (heldAt fileBuf mem) (headerOffsets len ehdr)
        ⟨pm, []⟩).2.log mem) := by
  intro h
  have hsegs : segments (bytesFrom 0x800000 (twoSegments 0x1000800)) 178 (twoHeader 0x1000800) =
      [⟨PT_LOAD, 176, 0x1000000, 1, 1⟩, ⟨PT_LOAD, 177, 0x1000800, 1, 1⟩] := by
    decide
  have hclear : ∀ v ∈ [0x1000000, 0x1000800], ∀ k < 178,
      ¬ InPages 0x1000000 4096 ((0x800000 + k) % 2 ^ 64) ∧
        ¬ InRange (2 ^ 64) v 1 ((0x800000 + k) % 2 ^ 64) := by
    decide +kernel
  have hloadable : Loadable 178 (segments (bytesFrom 0x800000 (twoSegments 0x1000800)) 178
      (twoHeader 0x1000800)) := by
    rw [hsegs]
    refine ⟨by decide, by decide, by decide, by decide, ?_⟩
    simp only [List.pairwise_pair, Elf64Phdr.Occupies]
    omega
  have hspares : SparesFile 0x800000 (twoSegments 0x1000800) 178 (twoHeader 0x1000800) := by
    refine .of_headers (by decide) ?_
    rw [hsegs, List.forall_mem_cons, List.forall_mem_singleton]
    exact ⟨hclear _ (by decide), hclear _ (by decide)⟩
  have hfaithful := h keepMemory 0x800000 (twoSegments 0x1000800) 178 (twoHeader 0x1000800)
    loadingKernel (by decide) (by decide) hloadable hspares (by decide +kernel)
  rw [hsegs] at hfaithful
  have hbyte := hfaithful _ List.mem_cons_self 0x1000000 (by decide)
  exact absurd hbyte (by decide +kernel)

end RustLoader

end Sylphia
