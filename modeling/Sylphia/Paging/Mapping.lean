import Sylphia.Memory.FreeFrames
import Sylphia.Paging.Steps

/-!
# Mapping pages

`MapPage` gives the pages it is called for their new translations and leaves all other
translations as they are, the rest of a 2 MB page that it splits included.
-/

namespace Sylphia

open RadixTree PageTableEntry

namespace PageManager

variable {pm : PageManager} {label : Labelling}

/-! ## Frames and tables -/

theorem entry_mul (pm : PageManager) (t i : Nat) : pm.entry (t * 4096) i = pm.memory t i := by
  rw [entry, kPageSize4K, Nat.mul_div_cancel t (by decide)]

theorem setEntry_mul (pm : PageManager) (t i : Nat) (e : PageTableEntry) :
    pm.setEntry (t * 4096) i e = { pm with memory := storeWord pm.memory t i e } := by
  rw [setEntry, kPageSize4K, Nat.mul_div_cancel t (by decide), storeWord]

theorem clearFrame_mul (pm : PageManager) (c : Nat) :
    pm.clearFrame (c * 4096) =
      { pm with memory := Function.update pm.memory c fun _ => 0 } := by
  rw [clearFrame, kPageSize4K, Nat.mul_div_cancel c (by decide)]

theorem fillTable_mul (pm : PageManager) (c : Nat) (f : Nat → PageTableEntry → PageTableEntry)
    (n : Nat) : pm.fillTable (c * 4096) f n =
      { pm with memory := Function.update pm.memory c fun k =>
          if k < n then f k (pm.memory c k) else pm.memory c k } := by
  induction n with
  | zero => simp [fillTable]
  | succ n ih =>
    rw [fillTable, ih, setEntry_mul, entry_mul]
    congr 1
    funext t k
    by_cases ht : t = c
    · subst ht
      by_cases hk : k = n
      · subst hk
        simp
      · have hlt : k < n + 1 ↔ k < n := by omega
        simp only [storeWord_of_ne fun hc => hk hc.2, Function.update_self, hlt]
    · simp only [storeWord_of_ne fun hc => ht hc.1, Function.update_of_ne ht]

/-- The free frame `f`, and no other, becomes used. -/
structure TakesFrame (frames : MemoryManager) (f : Nat) (frames' : MemoryManager) : Prop where
  free : frames.bitmap.get f = false
  taken : ∀ g, frames'.bitmap.get g = (decide (g = f) || frames.bitmap.get g)

theorem TakesFrame.freeSet {frames frames' : MemoryManager} {f : Nat}
    (h : TakesFrame frames f frames') :
    frames'.bitmap.freeSet = frames.bitmap.freeSet.erase f := by
  ext g
  rw [Finset.mem_erase, Bitmap.mem_freeSet, Bitmap.mem_freeSet, h.taken, Bool.or_eq_false_iff,
    decide_eq_false_iff_not]

/-- `AllocateFrame` fails for want of a frame and only records that it did, or it takes one. -/
theorem allocateFrame_cases (ha : Allocated label pm.frames) :
    pm.frames.bitmap.freeSet = ∅ ∧ pm.allocateFrame = (0, { pm with outOfFrames := true }) ∨
    ∃ f frames', TakesFrame pm.frames f frames' ∧
      pm.allocateFrame = (f * 4096, { pm with frames := frames' }) := by
  simp only [allocateFrame, MemoryManager.allocateFrame]
  cases hf : pm.frames.bitmap.findFreeFrame with
  | none => exact Or.inl ⟨Bitmap.findFreeFrame_eq_none_iff.mp hf, by simp⟩
  | some f =>
    obtain ⟨hfree, -⟩ := Bitmap.findFreeFrame_eq_some hf
    have hpos := (ha.free f hfree).1
    refine Or.inr ⟨f, { pm.frames with bitmap := pm.frames.bitmap.set f true },
      ⟨hfree, fun g => ?_⟩, ?_⟩
    · rw [Bitmap.get_set]
      by_cases hg : g = f
      · subst hg
        simp [Bitmap.lt_size_of_get hfree]
      · simp [hg]
    · have hne : (f * kFrameSize == 0) = false := by
        simp [kFrameSize]
        omega
      simp only [hne, Bool.or_false]
      rfl

/-- `AllocateTable` fails for want of a frame and only records that it did, or it clears a free
one. -/
theorem allocateTable_cases (ha : Allocated label pm.frames) :
    pm.frames.bitmap.freeSet = ∅ ∧ pm.allocateTable = (0, { pm with outOfFrames := true }) ∨
    ∃ f frames', TakesFrame pm.frames f frames' ∧ pm.allocateTable = (f * 4096,
      { pm with frames := frames', memory := Function.update pm.memory f fun _ => 0 }) := by
  rw [allocateTable]
  rcases allocateFrame_cases ha with ⟨hempty, he⟩ | ⟨f, frames', htake, he⟩
  · rw [he]
    exact Or.inl ⟨hempty, rfl⟩
  · have hpos := (ha.free f htake.free).1
    refine Or.inr ⟨f, frames', htake, ?_⟩
    rw [he]
    dsimp only
    rw [if_neg (by omega), clearFrame_mul]

theorem allocateTable_eq (ha : Allocated label pm.frames)
    (hout : pm.allocateTable.2.outOfFrames = false) :
    ∃ f frames', TakesFrame pm.frames f frames' ∧ pm.outOfFrames = false ∧
      pm.allocateTable = (f * 4096,
        { pm with frames := frames', memory := Function.update pm.memory f fun _ => 0 }) := by
  rcases allocateTable_cases ha with ⟨-, he⟩ | ⟨f, frames', htake, he⟩
  · rw [he] at hout
    cases hout
  · rw [he] at hout
    exact ⟨f, frames', htake, hout, he⟩

end PageManager

/-- Frames stay used, and tables are made of free frames. -/
structure Grows (label : Labelling) (frames : MemoryManager) (label' : Labelling)
    (frames' : MemoryManager) : Prop where
  used : ∀ f, frames.bitmap.get f = true → frames'.bitmap.get f = true
  fresh : ∀ f, label f = none → label' f ≠ none → frames.bitmap.get f = false

namespace Grows

variable {label label' label'' : Labelling} {frames frames' frames'' : MemoryManager} {f : Nat}

theorem refl (label : Labelling) (frames : MemoryManager) : Grows label frames label frames :=
  ⟨fun _ h => h, fun _ h h' => absurd h h'⟩

theorem trans (h : Grows label frames label' frames') (h' : Grows label' frames' label'' frames'') :
    Grows label frames label'' frames'' where
  used := fun f hf => h'.used f (h.used f hf)
  fresh := fun f hf hf'' => by
    by_cases hf' : label' f = none
    · have hfree := h'.fresh f hf' hf''
      cases hg : frames.bitmap.get f with
      | false => rfl
      | true =>
        rw [h.used f hg] at hfree
        cases hfree
    · exact h.fresh f hf hf'

/-- A frame in use does not become a table. -/
theorem label_eq_none (h : Grows label frames label' frames') (hused : frames.bitmap.get f = true)
    (hf : label f = none) : label' f = none := by
  by_contra hc
  have hfree := h.fresh f hf hc
  rw [hused] at hfree
  cases hfree

theorem take (h : PageManager.TakesFrame frames f frames') : Grows label frames label frames' :=
  ⟨fun g hg => by rw [h.taken, hg, Bool.or_true], fun _ hn hn' => absurd hn hn'⟩

theorem label_frame (h : PageManager.TakesFrame frames f frames') (x : Nat × Nat) :
    Grows label frames (Function.update label f (some x)) frames' where
  used := fun g hg => by rw [h.taken, hg, Bool.or_true]
  fresh := fun g hg hg' => by
    by_cases hgf : g = f
    · rw [hgf, h.free]
    · rw [Function.update_of_ne hgf] at hg'
      exact absurd hg hg'

end Grows

namespace Allocated

variable {label : Labelling} {frames frames' : MemoryManager} {f : Nat}

theorem label_eq_none (h : Allocated label frames) (ht : PageManager.TakesFrame frames f frames') :
    label f = none := by
  by_contra hc
  have hused := h.used f hc
  rw [ht.free] at hused
  cases hused

theorem take (h : Allocated label frames) (ht : PageManager.TakesFrame frames f frames') :
    Allocated label frames' where
  null := h.null
  used := fun t hl => by rw [ht.taken, h.used t hl, Bool.or_true]
  free := fun t hf => by
    rw [ht.taken, Bool.or_eq_false_iff] at hf
    exact h.free t hf.2

theorem label_frame (h : Allocated label frames) (ht : PageManager.TakesFrame frames f frames')
    (x : Nat × Nat) : Allocated (Function.update label f (some x)) frames' where
  null := by
    have hpos := (h.free f ht.free).1
    rw [Function.update_of_ne (by omega), h.null]
  used := fun t hl => by
    by_cases htf : t = f
    · simp [ht.taken, htf]
    · rw [Function.update_of_ne htf] at hl
      rw [ht.taken, h.used t hl, Bool.or_true]
  free := (h.take ht).free

end Allocated

namespace PageManager

variable {pm : PageManager} {label : Labelling} {t i : Nat} {user : Bool}

theorem getAddress_eq (e : PageTableEntry) : e.getAddress = e.address * 4096 := by
  rw [getAddress, Nat.shiftLeft_eq]

theorem outOfFrames_setEntry (pm : PageManager) (table index : Nat) (e : PageTableEntry) :
    (pm.setEntry table index e).outOfFrames = pm.outOfFrames := rfl

theorem outOfFrames_fillTable (pm : PageManager) (table : Nat)
    (f : Nat → PageTableEntry → PageTableEntry) (n : Nat) :
    (pm.fillTable table f n).outOfFrames = pm.outOfFrames := by
  induction n with
  | zero => rfl
  | succ n ih => exact ih

/-! ## Running out of frames is remembered -/

theorem outOfFrames_allocateTable (h : pm.allocateTable.2.outOfFrames = false) :
    pm.outOfFrames = false := by
  have hframe : pm.allocateFrame.2.outOfFrames = false → pm.outOfFrames = false := by
    intro hf
    exact (Bool.or_eq_false_iff.mp hf).1
  rw [allocateTable] at h
  cases hx : pm.allocateFrame with
  | mk ptr pm' =>
    rw [hx] at h hframe
    dsimp only at h hframe
    split at h
    · exact hframe h
    · exact hframe h

theorem outOfFrames_ensureEntry {table index : Nat}
    (h : (pm.ensureEntry table index user).2.outOfFrames = false) : pm.outOfFrames = false := by
  rw [ensureEntry] at h
  split at h
  · exact h
  · refine outOfFrames_allocateTable ?_
    cases hx : pm.allocateTable with
    | mk ptr pm' =>
      rw [hx] at h
      dsimp only at h
      split at h
      · exact h
      · exact h

theorem outOfFrames_splitHugePage {table index : Nat}
    (h : (pm.splitHugePage table index user).2.outOfFrames = false) : pm.outOfFrames = false := by
  rw [splitHugePage] at h
  refine outOfFrames_allocateTable ?_
  cases hx : pm.allocateTable with
  | mk ptr pm' =>
    rw [hx] at h
    dsimp only at h
    split at h
    · exact h
    · rwa [outOfFrames_setEntry, outOfFrames_fillTable] at h

theorem outOfFrames_mapInTable {pdTable vaddr paddr flags : Nat}
    (h : (pm.mapInTable pdTable vaddr paddr flags).2.outOfFrames = false) :
    (pm.ensureEntry pdTable (vaddr >>> 21 &&& 0x1FF) (hasFlag flags kUser)).2.outOfFrames =
      false := by
  rw [mapInTable] at h
  cases hx : pm.ensureEntry pdTable (vaddr >>> 21 &&& 0x1FF) (hasFlag flags kUser) with
  | mk ptr pm' =>
    rw [hx] at h
    dsimp only at h
    split at h
    · exact h
    · exact h

theorem outOfFrames_mapInDirectory {pdTable vaddr paddr flags : Nat}
    (h : (pm.mapInDirectory pdTable vaddr paddr flags).2.outOfFrames = false) :
    pm.outOfFrames = false := by
  rw [mapInDirectory] at h
  dsimp only at h
  split at h
  · have hsplit : (pm.splitHugePage pdTable (vaddr >>> 21 &&& 0x1FF)
        (hasFlag flags kUser)).2.outOfFrames = false := by
      split at h
      · exact h
      · exact outOfFrames_ensureEntry (outOfFrames_mapInTable h)
    exact outOfFrames_splitHugePage hsplit
  · exact outOfFrames_ensureEntry (outOfFrames_mapInTable h)

theorem outOfFrames_mapOne {vaddr paddr flags : Nat}
    (h : (pm.mapOne vaddr paddr flags).2.outOfFrames = false) : pm.outOfFrames = false := by
  rw [mapOne] at h
  dsimp only at h
  split at h
  · exact outOfFrames_ensureEntry h
  · split at h
    · exact outOfFrames_ensureEntry (outOfFrames_ensureEntry h)
    · exact outOfFrames_ensureEntry (outOfFrames_ensureEntry (outOfFrames_mapInDirectory h))

theorem outOfFrames_mapLoop {v p flags n i : Nat}
    (h : (pm.mapLoop v p flags n i).outOfFrames = false) : pm.outOfFrames = false := by
  induction n generalizing pm i with
  | zero => exact h
  | succ n ih =>
    rw [mapLoop] at h
    dsimp only at h
    split at h
    · exact outOfFrames_mapOne (ih h)
    · exact outOfFrames_mapOne h

theorem outOfFrames_mapPage {v p count flags : Nat}
    (h : (pm.mapPage v p count flags).outOfFrames = false) : pm.outOfFrames = false := by
  rw [mapPage] at h
  split at h
  · exact h
  · exact outOfFrames_mapLoop h

theorem outOfFrames_allocateLoop {v flags n i : Nat}
    (h : (pm.allocateLoop v flags n i).2.outOfFrames = false) : pm.outOfFrames = false := by
  have hframe : ∀ pm : PageManager, pm.allocateFrame.2.outOfFrames = false →
      pm.outOfFrames = false := fun pm hf => (Bool.or_eq_false_iff.mp hf).1
  induction n generalizing pm i with
  | zero => exact h
  | succ n ih =>
    rw [allocateLoop] at h
    dsimp only at h
    split at h
    · exact hframe pm h
    · have hmap := outOfFrames_mapPage (ih h)
      exact hframe pm hmap

theorem ne_of_takes {x : Nat × Nat} {f : Nat} {frames' : MemoryManager}
    (ha : Allocated label pm.frames) (ht : label t = some x)
    (htake : TakesFrame pm.frames f frames') : t ≠ f := by
  rintro rfl
  rw [ha.label_eq_none htake] at ht
  cases ht

/-- `EnsureEntry` on an entry that is present at most sets its user bit. -/
theorem ensureEntry_of_present (hp : (pm.memory t i).present = true) :
    pm.ensureEntry (t * 4096) i user = ((pm.memory t i).address * 4096,
      { pm with memory := storeWord pm.memory t i (raise (pm.memory t i) user) }) := by
  have haddr : (raise (pm.memory t i) user).address = (pm.memory t i).address :=
    congrArg Fields.address (fields_raise (pm.memory t i) user)
  rw [ensureEntry, entry_mul, if_pos hp]
  change ((raise (pm.memory t i) user).getAddress,
    pm.setEntry (t * 4096) i (raise (pm.memory t i) user)) = _
  rw [getAddress_eq, haddr, setEntry_mul]

/-- `EnsureEntry` finds the entry present, makes a table, or fails for want of a frame. -/
theorem ensureEntry_cases {x : Nat × Nat} (ha : Allocated label pm.frames)
    (ht : label t = some x)
    (hclear : (pm.memory t i).present = false → pm.memory t i = 0) :
    ((pm.memory t i).present = true ∧
      pm.ensureEntry (t * 4096) i user = ((pm.memory t i).address * 4096,
        { pm with memory := storeWord pm.memory t i (raise (pm.memory t i) user) })) ∨
    ((pm.memory t i).present = false ∧ ∃ c frames', TakesFrame pm.frames c frames' ∧
      pm.ensureEntry (t * 4096) i user = (c * 4096,
        { pm with
          frames := frames'
          memory := storeWord (Function.update pm.memory c fun _ => 0) t i (newLink c user) })) ∨
    ((pm.memory t i).present = false ∧ pm.frames.bitmap.freeSet = ∅ ∧
      pm.ensureEntry (t * 4096) i user = (0, { pm with outOfFrames := true })) := by
  by_cases hp : (pm.memory t i).present = true
  · exact Or.inl ⟨hp, ensureEntry_of_present hp⟩
  · rw [ensureEntry, entry_mul, if_neg hp]
    have hnp : (pm.memory t i).present = false := by simpa using hp
    refine Or.inr ?_
    rcases allocateTable_cases ha with ⟨hempty, he⟩ | ⟨c, frames', htake, he⟩
    · rw [he]
      exact Or.inr ⟨hnp, hempty, rfl⟩
    · obtain ⟨hpos, hlt⟩ := ha.free c htake.free
      have hc40 : (newLink c user).address = c := congrArg Fields.address (fields_newLink hlt user)
      have htc := ne_of_takes ha ht htake
      refine Or.inl ⟨hnp, c, frames', htake, ?_⟩
      rw [he]
      dsimp only
      rw [if_neg (by omega), entry_mul, setEntry_mul, getAddress_eq]
      have hzero : Function.update pm.memory c (fun _ => 0) t i = 0 := by
        rw [Function.update_of_ne htc, hclear hnp]
      simp only [hzero]
      exact congrArg (fun a => (a * 4096, _)) hc40

/-- The splitting of a 2 MB page, or its failure for want of a frame. -/
theorem splitHugePage_cases {x : Nat × Nat} (ha : Allocated label pm.frames)
    (ht : label t = some x) :
    (∃ c frames', TakesFrame pm.frames c frames' ∧
      pm.splitHugePage (t * 4096) i user = (true,
        { pm with
          frames := frames'
          memory := storeWord (Function.update pm.memory c (splitTable (pm.memory t i))) t i
            (splitLink (pm.memory t i) c user) })) ∨
    (pm.frames.bitmap.freeSet = ∅ ∧
      pm.splitHugePage (t * 4096) i user = (false, { pm with outOfFrames := true })) := by
  rw [splitHugePage]
  rcases allocateTable_cases ha with ⟨hempty, he⟩ | ⟨c, frames', htake, he⟩
  · rw [he]
    exact Or.inr ⟨hempty, rfl⟩
  · have hpos := (ha.free c htake.free).1
    have htc := ne_of_takes ha ht htake
    refine Or.inl ⟨c, frames', htake, ?_⟩
    rw [he]
    dsimp only
    rw [if_neg (by omega), fillTable_mul]
    simp only [entry_mul, setEntry_mul, Function.update_of_ne htc, Function.update_self,
      Function.update_idem]
    rfl

/-- The entry that `MapPage` writes for the page itself. -/
def leafEntry (e : PageTableEntry) (paddr flags : Nat) : PageTableEntry :=
  let e := e.setAddress paddr
  let e := (e.setPresent (hasFlag flags kPresent)).setReadWrite (hasFlag flags kWritable)
  e.setUserSupervisor (hasFlag flags kUser)

theorem setLeaf_mul (pm : PageManager) (t i paddr flags : Nat) :
    pm.setLeaf (t * 4096) i paddr flags =
      { pm with memory := storeWord pm.memory t i (leafEntry (pm.memory t i) paddr flags) } := by
  rw [setLeaf, setEntry_mul, entry_mul]
  rfl

/-- The translation that a page is given. -/
def granted (paddr flags : Nat) : Translation where
  page := paddr / 4096 % 2 ^ 40
  present := hasFlag flags kPresent
  writable := hasFlag flags kWritable
  user := hasFlag flags kUser

/-- Only the low 52 bits of a physical address count. -/
theorem granted_mod (paddr flags : Nat) : granted (paddr % 2 ^ 64) flags = granted paddr flags := by
  have hmod : paddr % 2 ^ 64 / 4096 % 2 ^ 40 = paddr / 4096 % 2 ^ 40 := by omega
  rw [granted, granted, hmod]

theorem ofLeaf_leafEntry (e : PageTableEntry) (paddr flags : Nat) :
    Translation.ofLeaf (leafEntry e paddr flags) = granted paddr flags := by
  have hf : fields (leafEntry e paddr flags) = ⟨hasFlag flags kPresent, hasFlag flags kWritable,
      hasFlag flags kUser, e.hugePage, paddr / 4096 % 2 ^ 40⟩ := by
    rw [leafEntry, fields_setUserSupervisor, fields_setReadWrite, fields_setPresent,
      fields_setAddress, Nat.shiftRight_eq_div_pow]
    rfl
  obtain ⟨hp, hw, hu, -, haddr⟩ := Fields.mk.inj hf
  rw [Translation.ofLeaf, hp, hw, hu, haddr, granted]

end PageManager

/-! ## One page -/

/-- The tables under a root are well formed, and a condition on all tables holds. -/
structure Sound (K : Labelling → (Nat → Nat → PageTableEntry) → Prop) (root : Nat)
    (label : Labelling) (pm : PageManager) : Prop where
  tables : Tables label pm.memory
  allocated : Allocated label pm.frames
  kept : K label pm.memory
  rooted : label root = some (3, 0)

/-- What the writes for a page leave alone. -/
structure Along (root page : Nat) (label : Labelling) (pm pm' : PageManager) : Prop where
  /-- The frames in use that are off the way of the page stay as they are. -/
  off : ∀ t, pm.frames.bitmap.get t = true →
    (∀ k, pageFormat.meets pm'.memory k 3 root page ≠ some t) → pm'.memory t = pm.memory t
  links : pageFormat.Extends label pm.memory pm'.memory
  /-- New links lead to new tables. -/
  fresh : ∀ t n lead i, label t = some (n + 1, lead) → i < 512 →
    pageFormat.stops (n + 1) (pm.memory t i) = true →
    pageFormat.stops (n + 1) (pm'.memory t i) = false → label (pm'.memory t i).address = none

namespace Along

variable {root page m t : Nat} {label : Labelling} {pm pm' : PageManager} {user : Bool}

/-- A write to one table on the way. -/
theorem write (ha : Allocated label pm.frames) (ho : Opens pm'.memory user page root m t)
    (hsame : ∀ s, pm.frames.bitmap.get s = true → s ≠ t → pm'.memory s = pm.memory s)
    (hentry : ∀ n lead i, label t = some (n + 1, lead) → i < 512 →
      (pageFormat.stops (n + 1) (pm'.memory t i) = pageFormat.stops (n + 1) (pm.memory t i) ∧
        (pm'.memory t i).address = (pm.memory t i).address) ∨
      (pageFormat.stops (n + 1) (pm.memory t i) = true ∧
        label (pm'.memory t i).address = none)) :
    Along root page label pm pm' where
  off := fun s hs hoff => by
    refine hsame s hs ?_
    rintro rfl
    exact hoff m ho.meets_self
  links := fun s n lead i hs hi hstop => by
    by_cases hst : s = t
    · subst hst
      rcases hentry n lead i hs hi with ⟨hsame, haddr⟩ | ⟨hend, -⟩
      · exact ⟨hsame.trans hstop, haddr⟩
      · rw [hstop] at hend
        cases hend
    · rw [hsame s (ha.used s (by simp [hs])) hst]
      exact ⟨hstop, rfl⟩
  fresh := fun s n lead i hs hi hend hstop => by
    by_cases hst : s = t
    · subst hst
      rcases hentry n lead i hs hi with ⟨hsame, -⟩ | ⟨-, hnone⟩
      · rw [hsame, hend] at hstop
        cases hstop
      · exact hnone
    · rw [hsame s (ha.used s (by simp [hs])) hst, hend] at hstop
      cases hstop

/-- Filling a free frame. -/
theorem fill_frame (ha : Allocated label pm.frames) {c : Nat} (hc : pm.frames.bitmap.get c = false)
    (words : Nat → PageTableEntry) (hm : pm'.memory = Function.update pm.memory c words) :
    Along root page label pm pm' := by
  have hsame (s : Nat) (hs : pm.frames.bitmap.get s = true) : pm'.memory s = pm.memory s := by
    rw [hm, Function.update_of_ne]
    rintro rfl
    rw [hc] at hs
    cases hs
  refine ⟨fun t ht _ => hsame t ht, fun t n lead i ht _ hs => ?_, fun t n lead i ht _ hs hs' => ?_⟩
  · rw [hsame t (ha.used t (by simp [ht]))]
    exact ⟨hs, rfl⟩
  · rw [hsame t (ha.used t (by simp [ht])), hs] at hs'
    cases hs'

theorem trans {label₁ : Labelling} {pm₁ : PageManager} (h : Along root page label pm pm₁)
    (h' : Along root page label₁ pm₁ pm') (hg : Grows label pm.frames label₁ pm₁.frames)
    (hl : ∀ t x, label t = some x → label₁ t = some x)
    (ht : pageFormat.Labelled label₁ pm₁.memory)
    (hroot : label₁ root = some (pageFormat.place 3 page)) : Along root page label pm pm' where
  off := fun t hu hoff => by
    rw [h'.off t (hg.used t hu) hoff]
    exact h.off t hu fun k hk => hoff k (h'.links.meets ht base_pos hroot hk)
  links := h.links.trans h'.links hl
  fresh := fun t n lead i hlab hi hend hstop => by
    cases hmid : pageFormat.stops (n + 1) (pm₁.memory t i) with
    | true =>
      have hnone := h'.fresh t n lead i (hl t _ hlab) hi hmid hstop
      cases hx : label (pm'.memory t i).address with
      | none => rfl
      | some x =>
        rw [hl _ _ hx] at hnone
        cases hnone
    | false =>
      rw [show (pm'.memory t i).address = (pm₁.memory t i).address from
        (h'.links t n lead i (hl t _ hlab) hi hmid).2]
      exact h.fresh t n lead i hlab hi hend hmid

end Along

namespace Sound

variable {K : Labelling → (Nat → Nat → PageTableEntry) → Prop} {root page m t : Nat}
  {label : Labelling} {pm : PageManager} {user : Bool}

theorem root_place (h : Sound K root label pm) (hpage : page < 2 ^ 36) :
    label root = some (pageFormat.place 3 page) := by
  rw [h.rooted, place_three hpage]

/-- Linking a new table on the way of the page opens the way to it. -/
private theorem link (hK : Discipline K user page root) (h : Sound K root label pm)
    (hpage : page < 2 ^ 36) (ho : Opens pm.memory user page root (m + 1) t)
    (hend : pageFormat.stops (m + 1) (pm.memory t (pageFormat.index (m + 1) page)) = true)
    {c : Nat} {frames' : MemoryManager} (htake : PageManager.TakesFrame pm.frames c frames')
    {words : Nat → PageTableEntry} (hwords : m = 0 ∨ ∀ j, words j = 0) {e : PageTableEntry}
    (hf : fields e = ⟨true, true,
      user || (pm.memory t (pageFormat.index (m + 1) page)).userSupervisor, false, c⟩)
    (htables : Tables (Function.update label c (some (m,
        page / 512 ^ (m + 1 + 1) * 512 + pageFormat.index (m + 1) page)))
      (storeWord (Function.update pm.memory c words) t (pageFormat.index (m + 1) page) e)) :
    Sound K root (Function.update label c (some (pageFormat.place m page)))
        { pm with
          frames := frames'
          memory := storeWord (Function.update pm.memory c words) t
            (pageFormat.index (m + 1) page) e } ∧
      Opens (storeWord (Function.update pm.memory c words) t (pageFormat.index (m + 1) page) e)
        user page root (m + 1) t ∧
      Opens (storeWord (Function.update pm.memory c words) t (pageFormat.index (m + 1) page) e)
        user page root m c ∧
      Along root page label pm { pm with
        frames := frames'
        memory := storeWord (Function.update pm.memory c words) t
          (pageFormat.index (m + 1) page) e } := by
  have hroot := h.root_place hpage
  have hlab := ho.label_eq h.tables.labelled hroot
  have hc := h.allocated.label_eq_none htake
  obtain ⟨hfp, hfw, hfu, hfh, hfa⟩ := Fields.mk.inj hf
  have hup : Opens (storeWord (Function.update pm.memory c words) t
      (pageFormat.index (m + 1) page) e) user page root (m + 1) t := by
    refine ho.congr h.tables.labelled hroot fun k s hk hs => ?_
    have hst : s ≠ t := by
      rintro rfl
      rw [hs, Option.some.injEq, Format.place, Format.place, Prod.mk.injEq] at hlab
      omega
    have hsc : s ≠ c := by
      rintro rfl
      rw [hc] at hs
      cases hs
    rw [storeWord_of_ne fun hx => hst hx.1, Function.update_of_ne hsc]
  have hdown := hup.child (by rw [storeWord_self]; exact stops_of_fields hf)
    (by rw [storeWord_self]; exact hfw) (fun hu => by rw [storeWord_self, hfu, hu, Bool.true_or])
  rw [storeWord_self, hfa] at hdown
  refine ⟨⟨?_, h.allocated.label_frame htake _, ?_, ?_⟩, hup, hdown,
    Along.write h.allocated hup ?_ ?_⟩
  · rw [place_eq]
    exact htables
  · exact hK.link h.kept h.tables hlab hend hc hwords hf
  · rw [Function.update_of_ne, h.rooted]
    rintro rfl
    rw [hc] at hroot
    cases hroot
  · intro s hs hst
    have hsc : s ≠ c := by
      rintro rfl
      rw [htake.free] at hs
      cases hs
    funext j
    exact (storeWord_of_ne fun hx => hst hx.1).trans (by rw [Function.update_of_ne hsc])
  · intro n lead i ht hi
    have htc : t ≠ c := by
      rintro rfl
      rw [hc] at ht
      cases ht
    by_cases hidx : i = pageFormat.index (m + 1) page
    · subst hidx
      rw [hlab, Option.some.injEq, Format.place, Prod.mk.injEq] at ht
      obtain rfl : m = n := by omega
      refine Or.inr ⟨hend, ?_⟩
      dsimp only
      rw [storeWord_self, hfa, hc]
    · dsimp only
      rw [storeWord_of_ne fun hx => hidx hx.2, Function.update_of_ne htc]
      exact Or.inl ⟨rfl, rfl⟩

/-- What the steps on the way of a page do before the write to the last level. -/
structure Prepares (K : Labelling → (Nat → Nat → PageTableEntry) → Prop) (root page : Nat)
    (label : Labelling) (pm : PageManager) (label' : Labelling) (pm' : PageManager) : Prop where
  sound : Sound K root label' pm'
  keeps : Keeps label pm.memory label' pm'.memory
  grows : Grows label pm.frames label' pm'.frames
  along : Along root page label pm pm'
  pml4 : pm'.pml4Table = pm.pml4Table
  flag : pm'.outOfFrames = pm.outOfFrames

theorem Prepares.trans {label₁ label' : Labelling} {pm₁ pm' : PageManager}
    (h : Prepares K root page label pm label₁ pm₁)
    (h' : Prepares K root page label₁ pm₁ label' pm') (hpage : page < 2 ^ 36) :
    Prepares K root page label pm label' pm' where
  sound := h'.sound
  keeps := h.keeps.trans h'.keeps
  grows := h.grows.trans h'.grows
  along := h.along.trans h'.along h.grows h.keeps.labels h.sound.tables.labelled
    (h.sound.root_place hpage)
  pml4 := h'.pml4.trans h.pml4
  flag := h'.flag.trans h.flag

/-- The table that `EnsureEntry` gives is the next one on the way of the page, unless there
is no frame for it. -/
theorem ensureEntry (hK : Discipline K user page root) (h : Sound K root label pm)
    (hpage : page < 2 ^ 36) (ho : Opens pm.memory user page root (m + 1) t)
    (hh : m = 0 → (pm.memory t (pageFormat.index (m + 1) page)).present = true →
      (pm.memory t (pageFormat.index (m + 1) page)).hugePage = false) :
    (∃ label' c pm', pm.ensureEntry (t * 4096) (pageFormat.index (m + 1) page) user =
        (c * 4096, pm') ∧ c ≠ 0 ∧ Prepares K root page label pm label' pm' ∧
        Opens pm'.memory user page root m c) ∨
      pm.ensureEntry (t * 4096) (pageFormat.index (m + 1) page) user =
        (0, { pm with outOfFrames := true }) := by
  have hroot := h.root_place hpage
  have hlab := ho.label_eq h.tables.labelled hroot
  have hi := index_lt_base (m + 1) page
  have hraise := hK.raisable h.kept h.tables hroot ho
  have hother {s k : Nat} (hk : m + 1 < k) (hs : label s = some (pageFormat.place k page)) :
      s ≠ t := by
    rintro rfl
    rw [hs, Option.some.injEq, Format.place, Format.place, Prod.mk.injEq] at hlab
    omega
  rcases PageManager.ensureEntry_cases h.allocated hlab (h.tables.clear t m _ _ hlab hi) with
    ⟨hp, he⟩ | ⟨hp, c, frames', htake, he⟩ | ⟨-, -, he⟩
  · -- The entry is there: at most its user bit is set.
    have hs : pageFormat.stops (m + 1) (pm.memory t (pageFormat.index (m + 1) page)) = false :=
      stops_eq_false.mpr ⟨hp, fun hm => hh (by omega) hp⟩
    obtain ⟨htables, hkeeps⟩ := raise_keeps h.tables hlab hi hs hraise
    obtain ⟨hfp, hfw, hfu, hfh, hfa⟩ := Fields.mk.inj
      (fields_raise (pm.memory t (pageFormat.index (m + 1) page)) user)
    have hup : Opens (storeWord pm.memory t (pageFormat.index (m + 1) page)
        (raise (pm.memory t (pageFormat.index (m + 1) page)) user)) user page root (m + 1) t :=
      ho.congr h.tables.labelled hroot fun k s hk hs => storeWord_of_ne fun hc => hother hk hs hc.1
    have hdown := hup.child
      (by rw [storeWord_self, stops_eq_false, hfp, hfh]; exact stops_eq_false.mp hs)
      (by rw [storeWord_self, hfw]; exact h.tables.writable t m _ _ hlab hi hp)
      (fun hu => by rw [storeWord_self, hfu, hu, Bool.true_or])
    rw [storeWord_self, hfa] at hdown
    have hchild := label_address h.tables.labelled hlab hs
    refine Or.inl ⟨label, _, _, he, ?_, ⟨⟨htables, h.allocated, ?_, h.rooted⟩, hkeeps,
      Grows.refl _ _, Along.write h.allocated hup ?_ ?_, rfl, rfl⟩, hdown⟩
    · intro hc
      rw [hc, h.allocated.null] at hchild
      cases hchild
    · exact hK.raise h.kept h.tables hlab hi hs
    · intro s _ hst
      exact funext fun j => storeWord_of_ne fun hx => hst hx.1
    · intro n lead i _ _
      refine Or.inl ?_
      by_cases hidx : i = pageFormat.index (m + 1) page
      · subst hidx
        dsimp only
        rw [storeWord_self, hfa]
        exact ⟨stops_congr hfp hfh, rfl⟩
      · dsimp only
        rw [storeWord_of_ne fun hx => hidx hx.2]
        exact ⟨rfl, rfl⟩
  · -- A clear table is made.
    have hc := h.allocated.label_eq_none htake
    obtain ⟨hpos, hc40⟩ := h.allocated.free c htake.free
    obtain ⟨htables, hkeeps⟩ := create_keeps h.tables hlab hi hp hc hc40 hraise
    have hzero : (pm.memory t (pageFormat.index (m + 1) page)).userSupervisor = false := by
      rw [h.tables.clear t m _ _ hlab hi hp]
      rfl
    obtain ⟨hsound, -, hdown, halong⟩ := h.link hK hpage ho (stops_of_absent hp) htake
      (Or.inr fun _ => rfl)
      (by rw [hzero, Bool.or_false]; exact fields_newLink hc40 user) htables
    refine Or.inl ⟨_, c, _, he, by omega,
      ⟨hsound, ?_, Grows.label_frame htake _, halong, rfl, rfl⟩, hdown⟩
    rw [place_eq]
    exact hkeeps
  · exact Or.inr he

/-- The splitting of a 2 MB page on the way of the page, unless there is no frame for it. -/
theorem splitHugePage (hK : Discipline K user page root) (h : Sound K root label pm)
    (hpage : page < 2 ^ 36) (ho : Opens pm.memory user page root 1 t)
    (hp : (pm.memory t (pageFormat.index 1 page)).present = true)
    (hh : (pm.memory t (pageFormat.index 1 page)).hugePage = true) :
    (∃ label' pm', pm.splitHugePage (t * 4096) (pageFormat.index 1 page) user = (true, pm') ∧
        Prepares K root page label pm label' pm' ∧ Opens pm'.memory user page root 1 t ∧
        (pm'.memory t (pageFormat.index 1 page)).hugePage = false) ∨
      pm.splitHugePage (t * 4096) (pageFormat.index 1 page) user =
        (false, { pm with outOfFrames := true }) := by
  have hroot := h.root_place hpage
  have hlab := ho.label_eq h.tables.labelled hroot
  have hi := index_lt_base 1 page
  have hraise := hK.raisable h.kept h.tables hroot ho
  refine (PageManager.splitHugePage_cases h.allocated hlab).imp ?_ And.right
  rintro ⟨c, frames', htake, he⟩
  have hc := h.allocated.label_eq_none htake
  obtain ⟨hpos, hc40⟩ := h.allocated.free c htake.free
  obtain ⟨htables, hkeeps⟩ := split_keeps h.tables hlab hi hp hh hc hc40 hraise
  have hf := fields_splitLink (pm.memory t (pageFormat.index 1 page)) hc40 user
  rw [h.tables.writable t 0 _ _ hlab hi hp] at hf
  obtain ⟨hsound, hup, -, halong⟩ :=
    h.link hK hpage ho (stops_of_huge hh) htake (Or.inl rfl) hf htables
  refine ⟨_, _, he, ⟨hsound, ?_, Grows.label_frame htake _, halong, rfl, rfl⟩, hup, ?_⟩
  · rw [place_eq]
    exact hkeeps
  · simp only [storeWord_self]
    exact congrArg Fields.hugePage hf

/-- What mapping one page does: the page gets its translation, other pages keep theirs
under every root, and so does the page under the roots that do not share its table. -/
structure MapsPage (K : Labelling → (Nat → Nat → PageTableEntry) → Prop)
    (root page paddr flags : Nat) (label : Labelling) (pm : PageManager) (label' : Labelling)
    (pm' : PageManager) (ptTable : Nat) : Prop where
  sound : Sound K root label' pm'
  labels : ∀ t x, label t = some x → label' t = some x
  grows : Grows label pm.frames label' pm'.frames
  opens : Opens pm'.memory (hasFlag flags kUser) page root 0 ptTable
  mapped : pageFormat.lookup pm'.memory 3 root page = PageManager.granted paddr flags
  others : ∀ r page', label r = some (pageFormat.place 3 page') → page' ≠ page →
    pageFormat.lookup pm'.memory 3 r page' = pageFormat.lookup pm.memory 3 r page'
  apart : ∀ r, label r = some (pageFormat.place 3 page) →
    pageFormat.meets pm'.memory 0 3 r page ≠ some ptTable →
    pageFormat.lookup pm'.memory 3 r page = pageFormat.lookup pm.memory 3 r page
  along : Along root page label pm pm'
  pml4 : pm'.pml4Table = pm.pml4Table
  before : pm.outOfFrames = false

/-- The write to the last level. -/
private theorem setLeaf {paddr flags : Nat} (hK : Discipline K (hasFlag flags kUser) page root)
    (h : Sound K root label pm) (hpage : page < 2 ^ 36)
    (ho : Opens pm.memory (hasFlag flags kUser) page root 0 t) (hb : pm.outOfFrames = false) :
    MapsPage K root page paddr flags label pm label
      (pm.setLeaf (t * 4096) (pageFormat.index 0 page) paddr flags) t := by
  have hroot := h.root_place hpage
  have hlab := ho.label_eq h.tables.labelled hroot
  have hleaf := PageManager.ofLeaf_leafEntry (pm.memory t (pageFormat.index 0 page)) paddr flags
  have huser : (PageManager.leafEntry (pm.memory t (pageFormat.index 0 page)) paddr
      flags).userSupervisor = hasFlag flags kUser := congrArg Translation.user hleaf
  have hlast : page = page / 512 ^ (0 + 1) * 512 + pageFormat.index 0 page := by
    have := @Format.lead_mul_add_index _ _ pageFormat page 0
    rw [pow_zero, Nat.div_one] at this
    exact this.symm
  rw [PageManager.setLeaf_mul]
  have hopen : Opens (storeWord pm.memory t (pageFormat.index 0 page)
      (PageManager.leafEntry (pm.memory t (pageFormat.index 0 page)) paddr flags))
      (hasFlag flags kUser) page root 0 t := by
    refine ho.congr h.tables.labelled hroot fun k s hk hs => storeWord_of_ne ?_
    rintro ⟨rfl, -⟩
    rw [hs, Option.some.injEq, Format.place, Format.place, Prod.mk.injEq] at hlab
    omega
  refine ⟨⟨?_, h.allocated, hK.leaf h.kept hlab, h.rooted⟩, fun _ _ hx => hx, Grows.refl _ _,
    hopen, ?_, ?_, ?_, Along.write h.allocated hopen ?_ ?_, rfl, hb⟩
  · refine leaf_tables h.tables hlab fun hu => ?_
    exact hK.raisable h.kept h.tables hroot ho (huser.symm.trans hu)
  · have hlook : pageFormat.lookup (storeWord pm.memory t (pageFormat.index 0 page)
        (PageManager.leafEntry (pm.memory t (pageFormat.index 0 page)) paddr flags)) 0 t page =
        PageManager.granted paddr flags := by
      rw [lookup_zero, storeWord_self, hleaf]
    rw [hopen.lookup_eq, hlook]
    rw [hlook]
    exact id
  · intro r page' hr hne
    exact lookup_leaf_of_ne h.tables.labelled hlab hr fun hc => hne (hc.trans hlast.symm)
  · intro r hr hmeets
    refine Format.lookup_of_not_meets h.tables.labelled base_pos
      (fun _ _ _ hc => storeWord_of_ne hc) hlab (Nat.zero_le 3) hr ?_
    rwa [Format.meets_congr (Nat.zero_le 3)] at hmeets
    intro k s hk hs
    refine storeWord_of_ne ?_
    rintro ⟨rfl, -⟩
    rw [h.tables.labelled.meets_place base_pos hr hs, Option.some.injEq, Format.place, Format.place,
      Prod.mk.injEq] at hlab
    omega
  · intro s _ hst
    exact funext fun j => storeWord_of_ne fun hx => hst hx.1
  · intro n lead i ht _
    rw [hlab, Option.some.injEq, Format.place, Prod.mk.injEq] at ht
    omega

/-- Steps before the write to the last level that keep all lookups. -/
theorem MapsPage.after {paddr flags ptTable : Nat} {label₁ label' : Labelling}
    {pm₁ pm' : PageManager} (h : MapsPage K root page paddr flags label₁ pm₁ label' pm' ptTable)
    (hpage : page < 2 ^ 36) (hp : Prepares K root page label pm label₁ pm₁) :
    MapsPage K root page paddr flags label pm label' pm' ptTable where
  sound := h.sound
  labels := fun t x hx => h.labels t x (hp.keeps.labels t x hx)
  grows := hp.grows.trans h.grows
  opens := h.opens
  mapped := h.mapped
  others := fun r page' hr hne =>
    (h.others r page' (hp.keeps.labels r _ hr) hne).trans (hp.keeps.lookups 3 r page' hr)
  apart := fun r hr hm =>
    (h.apart r (hp.keeps.labels r _ hr) hm).trans (hp.keeps.lookups 3 r page hr)
  along := hp.along.trans h.along hp.grows hp.keeps.labels hp.sound.tables.labelled
    (hp.sound.root_place hpage)
  pml4 := h.pml4.trans hp.pml4
  before := hp.flag.symm.trans h.before

/-- The page is mapped, or frames run out on the way and no translation changes. The record
of earlier failures does not matter. -/
def MapsOrStops (K : Labelling → (Nat → Nat → PageTableEntry) → Prop)
    (root page paddr flags : Nat) (label : Labelling) (pm : PageManager)
    (result : Bool × PageManager) : Prop :=
  (∃ label' pm' c, result = (true, pm') ∧ pm'.outOfFrames = pm.outOfFrames ∧
    MapsPage K root page paddr flags label { pm with outOfFrames := false } label'
      { pm' with outOfFrames := false } c) ∨
  ∃ label' pm', result = (false, { pm' with outOfFrames := true }) ∧
    Prepares K root page label pm label' pm'

theorem MapsOrStops.after {paddr flags : Nat} {label₁ : Labelling} {pm₁ : PageManager}
    {result : Bool × PageManager} (h : MapsOrStops K root page paddr flags label₁ pm₁ result)
    (hpage : page < 2 ^ 36) (hp : Prepares K root page label pm label₁ pm₁) :
    MapsOrStops K root page paddr flags label pm result := by
  rcases h with ⟨label', pm', c, he, hflag, hmaps⟩ | ⟨label', pm', he, hprep⟩
  · refine Or.inl ⟨label', pm', c, he, hflag.trans hp.flag, hmaps.after hpage ?_⟩
    exact ⟨⟨hp.sound.tables, hp.sound.allocated, hp.sound.kept, hp.sound.rooted⟩, hp.keeps,
      hp.grows, ⟨hp.along.off, hp.along.links, hp.along.fresh⟩, hp.pml4, rfl⟩
  · exact Or.inr ⟨label', pm', he, hp.trans hprep hpage⟩

/-- Frames run out at once. -/
theorem MapsOrStops.stop {paddr flags : Nat} (h : Sound K root label pm) :
    MapsOrStops K root page paddr flags label pm (false, { pm with outOfFrames := true }) :=
  Or.inr ⟨label, pm, rfl, h, Keeps.refl _ _, Grows.refl _ _,
    ⟨fun _ _ _ => rfl, fun _ _ _ _ _ _ hs => ⟨hs, rfl⟩, fun _ _ _ _ _ _ hs hs' => by
      rw [hs] at hs'
      cases hs'⟩, rfl, rfl⟩

section

variable {vaddr paddr flags : Nat}

private theorem pageOf_lt (v : Nat) : pageOf v < 2 ^ 36 := Nat.mod_lt _ (by decide)

private theorem shift_and (v k : Nat) : v >>> k &&& 0x1FF = v / 2 ^ k % 512 := by
  rw [Nat.shiftRight_eq_div_pow]
  exact Nat.and_two_pow_sub_one_eq_mod _ 9

/-- The digits of the page number are the indices that `MapPage` computes. -/
theorem index_pageOf (v : Nat) :
    v >>> 39 &&& 0x1FF = pageFormat.index 3 (pageOf v) ∧
      v >>> 30 &&& 0x1FF = pageFormat.index 2 (pageOf v) ∧
      v >>> 21 &&& 0x1FF = pageFormat.index 1 (pageOf v) ∧
      v >>> 12 &&& 0x1FF = pageFormat.index 0 (pageOf v) := by
  simp only [shift_and, Format.index, pageOf, pageFormat]
  norm_num
  omega

private theorem mapInTable (hK : Discipline K (hasFlag flags kUser) (pageOf vaddr) root)
    (h : Sound K root label pm)
    (ho : Opens pm.memory (hasFlag flags kUser) (pageOf vaddr) root 1 t)
    (hh : (pm.memory t (pageFormat.index 1 (pageOf vaddr))).present = true →
      (pm.memory t (pageFormat.index 1 (pageOf vaddr))).hugePage = false) :
    MapsOrStops K root (pageOf vaddr) paddr flags label pm
      (pm.mapInTable (t * 4096) vaddr paddr flags) := by
  obtain ⟨-, -, hi1, hi0⟩ := index_pageOf vaddr
  rw [PageManager.mapInTable, hi1, hi0]
  rcases h.ensureEntry hK (pageOf_lt vaddr) ho fun _ => hh with
    ⟨label', c, pm', he, hc, hprep, hopen⟩ | he
  · rw [he]
    dsimp only
    rw [if_neg (by omega)]
    have hsound : Sound K root label' { pm' with outOfFrames := false } :=
      ⟨hprep.sound.tables, hprep.sound.allocated, hprep.sound.kept, hprep.sound.rooted⟩
    have hleaf : MapsOrStops K root (pageOf vaddr) paddr flags label' pm'
        (true, pm'.setLeaf (c * 4096) (pageFormat.index 0 (pageOf vaddr)) paddr flags) :=
      Or.inl ⟨label', _, c, rfl, rfl, hsound.setLeaf hK (pageOf_lt vaddr) hopen rfl⟩
    exact hleaf.after (pageOf_lt vaddr) hprep
  · rw [he]
    exact MapsOrStops.stop h

private theorem mapInDirectory (hK : Discipline K (hasFlag flags kUser) (pageOf vaddr) root)
    (h : Sound K root label pm)
    (ho : Opens pm.memory (hasFlag flags kUser) (pageOf vaddr) root 1 t) :
    MapsOrStops K root (pageOf vaddr) paddr flags label pm
      (pm.mapInDirectory (t * 4096) vaddr paddr flags) := by
  obtain ⟨-, -, hi1, -⟩ := index_pageOf vaddr
  rw [PageManager.mapInDirectory, hi1, PageManager.entry_mul]
  dsimp only
  by_cases hhuge : ((pm.memory t (pageFormat.index 1 (pageOf vaddr))).present &&
      (pm.memory t (pageFormat.index 1 (pageOf vaddr))).hugePage) = true
  · -- A 2 MB page is in the way and is split first.
    obtain ⟨hp, hh⟩ := Bool.and_eq_true _ _ ▸ hhuge
    rw [if_pos hhuge]
    rcases h.splitHugePage hK (pageOf_lt vaddr) ho hp hh with
      ⟨label₁, pm₁, he, hprep, hopen, hnot⟩ | he
    · rw [he]
      exact (hprep.sound.mapInTable hK hopen fun _ => hnot).after (pageOf_lt vaddr) hprep
    · rw [he]
      exact MapsOrStops.stop h
  · rw [if_neg hhuge]
    refine h.mapInTable hK ho fun hp => ?_
    simpa [hp] using hhuge

/-- One iteration of `MapPage`. -/
theorem mapOne_cases (hK : Discipline K (hasFlag flags kUser) (pageOf vaddr) root)
    (h : Sound K root label pm) (hpml4 : pm.pml4Table = root * 4096) :
    MapsOrStops K root (pageOf vaddr) paddr flags label pm (pm.mapOne vaddr paddr flags) := by
  obtain ⟨hi3, hi2, -, -⟩ := index_pageOf vaddr
  rw [PageManager.mapOne, hi3, hi2, hpml4]
  dsimp only
  rcases h.ensureEntry hK (pageOf_lt vaddr) .root (by omega) with
    ⟨label₁, t₁, pm₁, he₁, ht₁, hprep₁, hopen₁⟩ | he₁
  · rw [he₁]
    dsimp only
    rw [if_neg (by omega)]
    refine MapsOrStops.after ?_ (pageOf_lt vaddr) hprep₁
    rcases hprep₁.sound.ensureEntry hK (pageOf_lt vaddr) hopen₁ (by omega) with
      ⟨label₂, t₂, pm₂, he₂, ht₂, hprep₂, hopen₂⟩ | he₂
    · rw [he₂]
      dsimp only
      rw [if_neg (by omega)]
      exact (hprep₂.sound.mapInDirectory hK hopen₂).after (pageOf_lt vaddr) hprep₂
    · rw [he₂]
      exact MapsOrStops.stop hprep₁.sound
  · rw [he₁]
    exact MapsOrStops.stop h

/-- One iteration of `MapPage`, when frames do not run out. -/
theorem mapOne (hK : Discipline K (hasFlag flags kUser) (pageOf vaddr) root)
    (h : Sound K root label pm) (hpml4 : pm.pml4Table = root * 4096)
    (hout : (pm.mapOne vaddr paddr flags).2.outOfFrames = false) :
    ∃ label' pm' c, pm.mapOne vaddr paddr flags = (true, pm') ∧
      MapsPage K root (pageOf vaddr) paddr flags label pm label' pm' c := by
  have hcases : MapsOrStops K root (pageOf vaddr) paddr flags label pm
      (pm.mapOne vaddr paddr flags) := h.mapOne_cases hK hpml4
  rcases hcases with ⟨label', pm', c, he, hflag, hmaps⟩ | ⟨label', pm', he, -⟩
  · rw [he] at hout
    have hself {q : PageManager} (hq : q.outOfFrames = false) :
        { q with outOfFrames := false } = q := by rw [← hq]
    rw [hself hout, hself (hflag.symm.trans hout)] at hmaps
    exact ⟨label', pm', c, he, hmaps⟩
  · rw [he] at hout
    cases hout

end

end Sound

end Sylphia
