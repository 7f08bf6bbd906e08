import Sylphia.Memory.FreeFrames
import Sylphia.Paging.Process

/-!
# Releasing the page table of a process

`FreeProcessPageTable` frees the root, the table below it and the directories of the two
gigabytes that apps use, wherever it finds them. `CreateProcessPageTable` leaves the
kernel's own table in the place of a copy that it has no frame for, and then it is this
table of the kernel that is freed.
-/

namespace Sylphia

open RadixTree PageTableEntry

/-- The table in a frame is reached from the root, at the level `n`: the root is at
level 3, the page tables are at level 0. -/
inductive TableAt (memory : Nat → Nat → PageTableEntry) (root : Nat) : Nat → Nat → Prop
  | root : TableAt memory root 3 root
  | child {n t i : Nat} : TableAt memory root (n + 1) t → i < 512 →
      pageFormat.stops (n + 1) (memory t i) = false →
      TableAt memory root n (memory t i).address

/-- A table under a labelled root has a label of its level. -/
theorem TableAt.labelled {label : Labelling} {memory : Nat → Nat → PageTableEntry} {root n t : Nat}
    (h : TableAt memory root n t) (hl : pageFormat.Labelled label memory)
    (hroot : label root = some (3, 0)) : ∃ lead, label t = some (n, lead) := by
  induction h with
  | root => exact ⟨0, hroot⟩
  | child _ hi hs ih =>
    obtain ⟨lead, hlead⟩ := ih
    exact ⟨_, hl _ _ lead _ hlead hi hs⟩

/-- Where the tables under a root are the same, the tables are. -/
theorem TableAt.congr {memory memory' : Nat → Nat → PageTableEntry} {root n t : Nat}
    (h : TableAt memory' root n t)
    (hsame : ∀ n t, TableAt memory root n t → memory' t = memory t) : TableAt memory root n t := by
  induction h with
  | root => exact .root
  | child _ hi hs ih =>
    rw [hsame _ _ ih] at hs ⊢
    exact ih.child hi hs

/-- The tables that a walk meets are tables under its root. -/
theorem TableAt.of_meets {memory : Nat → Nat → PageTableEntry} {root n t k c page : Nat}
    (h : TableAt memory root n t) (hm : pageFormat.meets memory k n t page = some c) :
    TableAt memory root k c := by
  induction n generalizing t with
  | zero =>
    rw [Format.meets] at hm
    split at hm
    · next hk =>
      obtain rfl := Option.some.inj hm
      rwa [hk]
    · cases hm
  | succ n ih =>
    rw [Format.meets] at hm
    split at hm
    · next hk =>
      obtain rfl := Option.some.inj hm
      rwa [hk]
    · dsimp only at hm
      split at hm
      · cases hm
      · next hs => exact ih (h.child (index_lt_base (n + 1) page) (by simpa using hs)) hm

/-- A table under a root is the one that its pages meet. -/
theorem TableAt.meets {label : Labelling} {memory : Nat → Nat → PageTableEntry}
    {root n t page : Nat}
    (h : TableAt memory root n t) (hl : pageFormat.Labelled label memory)
    (hroot : label root = some (3, 0)) (ht : label t = some (pageFormat.place n page)) :
    pageFormat.meets memory n 3 root page = some t := by
  induction h with
  | root => exact Format.meets_top _ _ _ _
  | @child n s i h hi hs ih =>
    obtain ⟨lead, hlead⟩ := h.labelled hl hroot
    have hplace : page / 512 ^ (n + 1) = lead * 512 + i := by
      have hchild := (hl s n lead i hlead hi hs).symm.trans ht
      exact (congrArg Prod.snd (Option.some.inj hchild)).symm
    have hindex : pageFormat.index (n + 1) page = i := by
      rw [show pageFormat.index (n + 1) page = page / 512 ^ (n + 1) % 512 from rfl, hplace]
      omega
    have hup : page / 512 ^ (n + 1 + 1) = lead := by
      rw [pow_succ, ← Nat.div_div_eq_div_mul, hplace]
      omega
    have hs' := ih (hlead.trans (by rw [Format.place, ← hup]; rfl))
    rw [Format.meets_below hs', hindex, if_neg (by simp [hs])]
    rfl

/-- The frame of the page directory at an entry of a PDP table, if it is present. -/
def directoryFrame (memory : Nat → Nat → PageTableEntry) (pdp i : Nat) : Finset Nat :=
  if (memory pdp i).present then {(memory pdp i).address} else ∅

theorem address_mem_directoryFrame {memory : Nat → Nat → PageTableEntry} {pdp i : Nat}
    (h : (memory pdp i).present = true) : (memory pdp i).address ∈ directoryFrame memory pdp i := by
  rw [directoryFrame, if_pos h]
  exact Finset.mem_singleton_self _

/-- The frames that `FreeProcessPageTable` frees for a root. -/
def ownFrames (memory : Nat → Nat → PageTableEntry) (root : Nat) : Finset Nat :=
  if (memory root 0).present then
    insert root (insert (memory root 0).address (directoryFrame memory (memory root 0).address 0 ∪
      directoryFrame memory (memory root 0).address 1))
  else {root}

/-- The number of tables that `CreateProcessPageTable` copies for the kernel's root. -/
def tableCount (memory : Nat → Nat → PageTableEntry) (root : Nat) : Nat :=
  if (memory root 0).present then
    2 + (memory (memory root 0).address 0).present.toNat +
      (memory (memory root 0).address 1).present.toNat
  else 1

/-- The free frames can be named by an entry, and none of them is frame 0. -/
def PageManager.FreeNamed (pm : PageManager) : Prop :=
  ∀ f ∈ pm.frames.bitmap.freeSet, 0 < f ∧ f < 2 ^ 40

/-- The kernel's tables are in frames that are marked used. -/
structure TablesUsed (pm : PageManager) : Prop where
  aligned : pm.pml4Table = pm.pml4Table / 4096 * 4096
  used : ∀ n t, TableAt pm.memory (pm.pml4Table / 4096) n t → pm.frames.bitmap.get t = true
  free : pm.FreeNamed

/-- The kernel's tables are in frames of the bitmap that are marked used. -/
structure TablesInUse (pm : PageManager) : Prop extends TablesUsed pm where
  managed : ∀ n t, TableAt pm.memory (pm.pml4Table / 4096) n t →
    t / 8 < pm.frames.bitmap.bitmapSize

namespace PageManager

variable {pm pm' : PageManager} {s t p i r : Nat} {taken : Finset Nat}

/-- The frames of a set that `FreeFrame` does not ignore. -/
def managed (pm : PageManager) (frames : Finset Nat) : Finset Nat :=
  frames.filter fun f => f / 8 < pm.frames.bitmap.bitmapSize

theorem freeSet_freeFrame (pm : PageManager) (f : Nat) :
    (pm.freeFrame (f * 4096)).frames.bitmap.freeSet =
      pm.frames.bitmap.freeSet ∪ pm.managed {f} := by
  rw [freeFrame, MemoryManager.freeFrame, kFrameSize, Nat.mul_div_cancel f (by decide), managed,
    Finset.filter_singleton]
  dsimp only
  split
  · next h => rw [Bitmap.freeSet_set_false h, Finset.insert_eq, Finset.union_comm]
  · next h => rw [Bitmap.set, if_pos (by omega), Finset.union_empty]

theorem bitmapSize_freeFrame (pm : PageManager) (ptr : Nat) :
    (pm.freeFrame ptr).frames.bitmap.bitmapSize = pm.frames.bitmap.bitmapSize :=
  Bitmap.bitmapSize_set _ _ _

/-- Frames are put back into the bitmap, and entries are cleared in some tables. -/
structure Frees (pm : PageManager) (freed cleared : Finset Nat) (pm' : PageManager) : Prop where
  free : pm'.frames.bitmap.freeSet = pm.frames.bitmap.freeSet ∪ pm.managed freed
  size : pm'.frames.bitmap.bitmapSize = pm.frames.bitmap.bitmapSize
  range : pm'.frames.rangeEnd = pm.frames.rangeEnd
  memory : ∀ t, t ∉ cleared → pm'.memory t = pm.memory t
  pml4 : pm'.pml4Table = pm.pml4Table
  cr3 : pm'.cr3 = pm.cr3

namespace Frees

variable {u v x y : Finset Nat} {pm₁ : PageManager}

theorem trans (h : Frees pm u x pm₁) (h' : Frees pm₁ v y pm') : Frees pm (u ∪ v) (x ∪ y) pm' where
  free := by
    rw [h'.free, h.free, managed, managed, managed, h.size, Finset.filter_union,
      Finset.union_assoc]
  size := h'.size.trans h.size
  range := h'.range.trans h.range
  memory := fun t ht => by
    rw [Finset.mem_union, not_or] at ht
    exact (h'.memory t ht.2).trans (h.memory t ht.1)
  pml4 := h'.pml4.trans h.pml4
  cr3 := h'.cr3.trans h.cr3

theorem frame (pm : PageManager) (f : Nat) : Frees pm {f} ∅ (pm.freeFrame (f * 4096)) :=
  ⟨freeSet_freeFrame pm f, bitmapSize_freeFrame pm _, rfl, fun _ _ => rfl, rfl, rfl⟩

theorem weaken (h : Frees pm u x pm') (hxy : x ⊆ y) : Frees pm u y pm' :=
  ⟨h.free, h.size, h.range, fun t ht => h.memory t fun hx => ht (hxy hx), h.pml4, h.cr3⟩

end Frees

theorem freeDirectory_frees (pm : PageManager) (p i : Nat) :
    Frees pm (directoryFrame pm.memory p i) {p} (pm.freeDirectory (p * 4096) i) ∧
      ∀ j, j ≠ i → (pm.freeDirectory (p * 4096) i).memory p j = pm.memory p j := by
  rw [freeDirectory, entry_mul, directoryFrame]
  split
  · rw [getAddress_eq, setEntry_mul]
    have hf := Frees.frame pm (pm.memory p i).address
    refine ⟨⟨hf.free, hf.size, rfl, fun t ht => ?_, rfl, rfl⟩, fun j hj => ?_⟩
    · exact Function.update_of_ne (by simpa using ht) _ _
    · exact storeWord_of_ne fun hc => hj hc.2
  · refine ⟨⟨?_, rfl, rfl, fun _ _ => rfl, rfl, rfl⟩, fun _ _ => rfl⟩
    rw [managed, Finset.filter_empty, Finset.union_empty]

/-- `FreeProcessPageTable` of a root other than the kernel's; what it clears, it frees. -/
theorem freeProcessPageTable_frees (pm : PageManager) (hpos : 0 < r)
    (hk : r * 4096 ≠ pm.pml4Table) :
    Frees pm (ownFrames pm.memory r) (ownFrames pm.memory r)
      (pm.freeProcessPageTable (r * 4096)) := by
  rw [freeProcessPageTable, if_neg hk, if_neg (by omega), entry_mul, ownFrames]
  dsimp only
  split
  · rw [getAddress_eq]
    obtain ⟨h0, hkeep⟩ := freeDirectory_frees pm (pm.memory r 0).address 0
    obtain ⟨h1, -⟩ := freeDirectory_frees (pm.freeDirectory ((pm.memory r 0).address * 4096) 0)
      (pm.memory r 0).address 1
    have hsame : directoryFrame (pm.freeDirectory ((pm.memory r 0).address * 4096) 0).memory
        (pm.memory r 0).address 1 = directoryFrame pm.memory (pm.memory r 0).address 1 := by
      rw [directoryFrame, directoryFrame, hkeep 1 (by decide)]
    rw [hsame] at h1
    have h := ((h0.trans h1).trans (Frees.frame _ (pm.memory r 0).address)).trans
      (Frees.frame _ r)
    have hfreed : insert r (insert (pm.memory r 0).address
        (directoryFrame pm.memory (pm.memory r 0).address 0 ∪
          directoryFrame pm.memory (pm.memory r 0).address 1)) =
        directoryFrame pm.memory (pm.memory r 0).address 0 ∪
          directoryFrame pm.memory (pm.memory r 0).address 1 ∪ {(pm.memory r 0).address} ∪ {r} := by
      ext f
      simp only [Finset.mem_insert, Finset.mem_union, Finset.mem_singleton]
      tauto
    rw [hfreed]
    refine h.weaken fun f hf => ?_
    simp only [Finset.mem_union, Finset.mem_singleton, Finset.notMem_empty, or_false,
      or_self] at hf ⊢
    exact Or.inl (Or.inr hf)
  · exact (Frees.frame pm r).weaken (Finset.empty_subset _)

/-- Free frames are taken, and memory changes only there. -/
structure Gains (pm : PageManager) (taken : Finset Nat) (pm' : PageManager) : Prop where
  takes : pm.frames.Takes taken pm'.frames
  memory : ∀ t, t ∉ taken → pm'.memory t = pm.memory t
  pml4 : pm'.pml4Table = pm.pml4Table
  cr3 : pm'.cr3 = pm.cr3

namespace Gains

variable {pm₁ : PageManager} {u v : Finset Nat}

theorem trans (h : Gains pm u pm₁) (h' : Gains pm₁ v pm') : Gains pm (u ∪ v) pm' where
  takes := h.takes.trans h'.takes
  memory := fun t ht => by
    rw [Finset.mem_union, not_or] at ht
    exact (h'.memory t ht.2).trans (h.memory t ht.1)
  pml4 := h'.pml4.trans h.pml4
  cr3 := h'.cr3.trans h.cr3

/-- A table that was taken may be written. -/
theorem setEntry (h : Gains pm u pm₁) (hp : p ∈ u) (i : Nat) (e : PageTableEntry) :
    Gains pm u (pm₁.setEntry (p * 4096) i e) where
  takes := h.takes
  memory := fun t ht => by
    have htp : t ≠ p := by
      rintro rfl
      exact ht hp
    rw [setEntry_mul]
    dsimp only
    rw [storeWord, Function.update_of_ne htp]
    exact h.memory t ht
  pml4 := h.pml4
  cr3 := h.cr3

theorem outOfFrames (h : Gains pm u pm₁) (b : Bool) : Gains pm u { pm₁ with outOfFrames := b } :=
  ⟨h.takes, h.memory, h.pml4, h.cr3⟩

theorem freeNamed (h : Gains pm u pm₁) (hfree : pm.FreeNamed) : pm₁.FreeNamed := by
  intro f hf
  rw [h.takes.left] at hf
  exact hfree f (Finset.mem_sdiff.mp hf).1

end Gains

/-- `CopyPageTable` takes a frame and copies the table, or fails when no frame is free. -/
theorem copyPageTable_gains (hfree : pm.FreeNamed) (hs : pm.frames.bitmap.get s = true) :
    (pm.frames.bitmap.freeSet = ∅ ∧
      pm.copyPageTable (s * 4096) = (0, { pm with outOfFrames := true })) ∨
    ∃ c pm₁, 0 < c ∧ c < 2 ^ 40 ∧ pm.copyPageTable (s * 4096) = (c * 4096, pm₁) ∧
      Gains pm {c} pm₁ ∧ ∀ j < 512, pm₁.memory c j = pm.memory s j := by
  rcases pm.frames.allocateFrame_takes with ⟨hempty, he⟩ | ⟨c, frames', htake, he⟩
  · refine Or.inl ⟨hempty, ?_⟩
    simp [copyPageTable, allocateTable, allocateFrame, he]
  · have hc := htake.free (Finset.mem_singleton_self c)
    obtain ⟨hpos, hc40⟩ := hfree c hc
    have hsc : s ≠ c := by
      rintro rfl
      exact Bitmap.get_eq_true_iff.mp hs hc
    have hne : ¬ c * kFrameSize = 0 := by
      rw [kFrameSize]
      omega
    have hzero : (c * 4096 == 0) = false := beq_false_of_ne (by omega)
    refine Or.inr ⟨c, { pm with
      frames := frames'
      memory := Function.update pm.memory c (copyTable (pm.memory s)) }, hpos, hc40, ?_,
      ⟨htake, fun t ht => Function.update_of_ne (by simpa using ht) _ _, rfl, rfl⟩, ?_⟩
    · rw [copyPageTable, allocateTable, allocateFrame, he]
      dsimp only
      rw [if_neg hne, kFrameSize]
      dsimp only
      rw [if_neg (by omega), clearFrame_mul, fillTable_mul]
      simp only [entry_mul, Function.update_of_ne hsc, Function.update_self, Function.update_idem]
      rw [hzero, Bool.or_false]
      rfl
    · intro j hj
      dsimp only
      rw [Function.update_self, copyTable_of_lt _ hj]

/-- What became of the directory at an entry of a copied PDP table: it was copied if it is
present, or there was no free frame and the entry leads to the same directory as before. -/
structure CopiesDirectory (pm : PageManager) (p i : Nat) (new : Finset Nat) (pm' : PageManager) :
    Prop where
  takes : pm.frames.Takes new pm'.frames
  others : ∀ t j, t ∉ new → ¬ (t = p ∧ j = i) → pm'.memory t j = pm.memory t j
  leads : (new.card = (pm.memory p i).present.toNat ∧ directoryFrame pm'.memory p i = new) ∨
    (pm.frames.bitmap.freeSet = ∅ ∧ pm'.outOfFrames = true ∧ (pm.memory p i).present = true ∧
      pm'.memory p i = pm.memory p i)

theorem copyDirectory_copies (hfree : pm.FreeNamed) (hp : pm.frames.bitmap.get p = true)
    (hused : (pm.memory p i).present = true →
      pm.frames.bitmap.get (pm.memory p i).address = true) :
    ∃ new, CopiesDirectory pm p i new (pm.copyDirectory (p * 4096) i) ∧
      (pm.copyDirectory (p * 4096) i).pml4Table = pm.pml4Table ∧
      (pm.copyDirectory (p * 4096) i).cr3 = pm.cr3 := by
  rw [PageManager.copyDirectory, entry_mul]
  dsimp only
  by_cases hpres : (pm.memory p i).present = true
  · rw [if_pos hpres, getAddress_eq]
    rcases copyPageTable_gains hfree (hused hpres) with
      ⟨hempty, he⟩ | ⟨c, pm₁, hpos, hc40, he, hg, -⟩
    · rw [he]
      dsimp only
      rw [if_pos rfl]
      exact ⟨∅, ⟨MemoryManager.Takes.refl _, fun _ _ _ _ => rfl, Or.inr ⟨hempty, rfl, hpres, rfl⟩⟩,
        rfl, rfl⟩
    · have hpc : p ∉ ({c} : Finset Nat) := fun hc =>
        Bitmap.get_eq_true_iff.mp hp (hg.takes.free hc)
      have hf := @fields_relink c (pm.memory p i) hc40
      rw [he]
      dsimp only
      rw [if_neg (by omega), entry_mul, hg.memory p hpc, setEntry_mul]
      refine ⟨{c}, ⟨hg.takes, fun t j ht hne => ?_, Or.inl ⟨?_, ?_⟩⟩, hg.pml4, hg.cr3⟩
      · dsimp only
        rw [storeWord_of_ne hne, hg.memory t ht]
      · rw [hpres, Finset.card_singleton, Bool.toNat_true]
      · have hp' : ((pm.memory p i).setAddress (c * 4096)).present = true :=
          (congrArg Fields.present hf).trans hpres
        have ha : ((pm.memory p i).setAddress (c * 4096)).address = c := congrArg Fields.address hf
        dsimp only
        rw [directoryFrame, storeWord_self, if_pos hp', ha]
  · rw [if_neg hpres]
    refine ⟨∅, ⟨MemoryManager.Takes.refl _, fun _ _ _ _ => rfl, Or.inl ⟨?_, ?_⟩⟩, rfl, rfl⟩
    · rw [Bool.not_eq_true] at hpres
      rw [hpres, Finset.card_empty, Bool.toNat_false]
    · rw [directoryFrame, if_neg hpres]

/-- The copy of a directory below a table that was taken before. -/
theorem Gains.copyDirectory {pm₁ : PageManager} (h : Gains pm taken pm₁) (hp : p ∈ taken)
    (hfree : pm.FreeNamed)
    (hused : (pm₁.memory p i).present = true →
      pm.frames.bitmap.get (pm₁.memory p i).address = true) :
    ∃ new, Gains pm (taken ∪ new) (pm₁.copyDirectory (p * 4096) i) ∧ Disjoint taken new ∧
      CopiesDirectory pm₁ p i new (pm₁.copyDirectory (p * 4096) i) := by
  obtain ⟨new, hnew, hpml4, hcr3⟩ := copyDirectory_copies (h.freeNamed hfree) (h.takes.taken hp)
    fun hpres => h.takes.used (hused hpres)
  refine ⟨new, ⟨h.takes.trans hnew.takes, fun t ht => ?_, hpml4.trans h.pml4, hcr3.trans h.cr3⟩,
    h.takes.disjoint hnew.takes, hnew⟩
  rw [Finset.mem_union, not_or] at ht
  funext j
  rw [hnew.others t j ht.2 fun hc => ht.1 (hc.1 ▸ hp), h.memory t ht.1]

end PageManager

/-! ## `CreateProcessPageTable` followed by `FreeProcessPageTable` -/

/-- What `CreateProcessPageTable` has done when it returns the root `r`: it has taken all
the frames that `FreeProcessPageTable` would free, or there were too few and one of these is
a table of the kernel. -/
structure CreatesRoot (pm : PageManager) (r : Nat) (taken : Finset Nat) (pm' : PageManager) :
    Prop where
  root : r ∈ taken
  gains : PageManager.Gains pm taken pm'
  own : (tableCount pm.memory (pm.pml4Table / 4096) ≤ pm.frames.bitmap.freeFrames ∧
      ownFrames pm'.memory r = taken ∧
      taken.card = tableCount pm.memory (pm.pml4Table / 4096)) ∨
    (pm.frames.bitmap.freeFrames < tableCount pm.memory (pm.pml4Table / 4096) ∧
      pm'.frames.bitmap.freeSet = ∅ ∧ pm'.outOfFrames = true ∧
        ∃ t ∈ ownFrames pm'.memory r, ∃ n, TableAt pm.memory (pm.pml4Table / 4096) n t)

namespace TablesUsed

variable {pm : PageManager}

/-- The kernel's PDP table. -/
theorem pdp (hp : (pm.memory (pm.pml4Table / 4096) 0).present = true) :
    TableAt pm.memory (pm.pml4Table / 4096) 2 (pm.memory (pm.pml4Table / 4096) 0).address :=
  TableAt.root.child (by decide) (stops_eq_false.mpr ⟨hp, fun h => absurd h (by decide)⟩)

/-- A directory below the kernel's PDP table. -/
theorem directory (hp : (pm.memory (pm.pml4Table / 4096) 0).present = true) {i : Nat}
    (hi : i < 512)
    (hpi : (pm.memory (pm.memory (pm.pml4Table / 4096) 0).address i).present = true) :
    TableAt pm.memory (pm.pml4Table / 4096) 1
      (pm.memory (pm.memory (pm.pml4Table / 4096) 0).address i).address :=
  (pdp hp).child hi (stops_eq_false.mpr ⟨hpi, fun h => absurd h (by decide)⟩)

/-- The copies of the two directories, below a copied PDP table `c₂` and a root `c₁`. -/
theorem copyDirectories (h : TablesUsed pm) {pm₂ : PageManager} {c₁ c₂ : Nat}
    (hp : (pm.memory (pm.pml4Table / 4096) 0).present = true)
    (hg : PageManager.Gains pm ({c₁} ∪ {c₂}) pm₂) (hne : c₁ ≠ c₂)
    (hroot : (pm₂.memory c₁ 0).present = true) (hlink : (pm₂.memory c₁ 0).address = c₂)
    (hcopy : ∀ j < 512,
      pm₂.memory c₂ j = pm.memory (pm.memory (pm.pml4Table / 4096) 0).address j) :
    ∃ taken, CreatesRoot pm c₁ taken
      ((pm₂.copyDirectory (c₂ * 4096) 0).copyDirectory (c₂ * 4096) 1) := by
  have hc₂ : c₂ ∈ ({c₁} : Finset Nat) ∪ {c₂} := by simp
  have hused {j : Nat} (hj : j < 512) {e : PageTableEntry}
      (he : e = pm.memory (pm.memory (pm.pml4Table / 4096) 0).address j)
        (hpres : e.present = true) :
      pm.frames.bitmap.get e.address = true := by
    subst he
    exact h.used 1 _ (directory hp hj hpres)
  obtain ⟨new₀, hg₀, hd₀, hdir₀⟩ :=
    hg.copyDirectory hc₂ h.free fun hpres => hused (by decide) (hcopy 0 (by decide)) hpres
  have hmem₀ {t : Nat} (ht : t ∈ ({c₁} : Finset Nat) ∪ {c₂}) : t ∉ new₀ :=
    Finset.disjoint_left.mp hd₀ ht
  have hentry₁ : (pm₂.copyDirectory (c₂ * 4096) 0).memory c₂ 1 =
      pm.memory (pm.memory (pm.pml4Table / 4096) 0).address 1 := by
    rw [hdir₀.others c₂ 1 (hmem₀ hc₂) (by omega), hcopy 1 (by decide)]
  obtain ⟨new₁, hg₁, hd₁, hdir₁⟩ := hg₀.copyDirectory (Finset.mem_union_left _ hc₂) h.free
    fun hpres => hused (by decide) hentry₁ hpres
  have hmem₁ {t : Nat} (ht : t ∈ ({c₁} : Finset Nat) ∪ {c₂}) : t ∉ new₁ :=
    Finset.disjoint_left.mp hd₁ (Finset.mem_union_left _ ht)
  have hc₁ : c₁ ∈ ({c₁} : Finset Nat) ∪ {c₂} := by simp
  have hroot' : ((pm₂.copyDirectory (c₂ * 4096) 0).copyDirectory (c₂ * 4096) 1).memory c₁ 0 =
      pm₂.memory c₁ 0 := by
    rw [hdir₁.others c₁ 0 (hmem₁ hc₁) (by omega), hdir₀.others c₁ 0 (hmem₀ hc₁) (by omega)]
  have hfirst : ((pm₂.copyDirectory (c₂ * 4096) 0).copyDirectory (c₂ * 4096) 1).memory c₂ 0 =
      (pm₂.copyDirectory (c₂ * 4096) 0).memory c₂ 0 :=
    hdir₁.others c₂ 0 (hmem₁ hc₂) (by omega)
  have hown : ownFrames ((pm₂.copyDirectory (c₂ * 4096) 0).copyDirectory (c₂ * 4096) 1).memory c₁ =
      {c₁} ∪ {c₂} ∪ directoryFrame (pm₂.copyDirectory (c₂ * 4096) 0).memory c₂ 0 ∪
        directoryFrame ((pm₂.copyDirectory (c₂ * 4096) 0).copyDirectory (c₂ * 4096) 1).memory c₂
          1 := by
    rw [ownFrames, hroot', if_pos hroot, hlink, directoryFrame, hfirst, ← directoryFrame]
    ext f
    simp only [Finset.mem_insert, Finset.mem_union, Finset.mem_singleton]
    tauto
  have hcount : tableCount pm.memory (pm.pml4Table / 4096) =
      2 + (pm₂.memory c₂ 0).present.toNat +
        ((pm₂.copyDirectory (c₂ * 4096) 0).memory c₂ 1).present.toNat := by
    rw [tableCount, if_pos hp, hcopy 0 (by decide), hentry₁]
  have hfree := hg.takes.freeFrames
  have hfree₀ := hdir₀.takes.freeFrames
  have hfree₁ := hdir₁.takes.freeFrames
  rw [Finset.card_union_of_disjoint (by simpa using hne), Finset.card_singleton,
    Finset.card_singleton] at hfree
  refine ⟨_, Finset.mem_union_left _ (Finset.mem_union_left _ hc₁), hg₁, ?_⟩
  rcases hdir₀.leads with ⟨hcard₀, hlead₀⟩ | ⟨hempty, hflag, hpres, hkept⟩
  · rcases hdir₁.leads with ⟨hcard₁, hlead₁⟩ | ⟨hempty, hflag, hpres, hkept⟩
    · left
      have hcard : ({c₁} ∪ {c₂} ∪ new₀ ∪ new₁).card = 2 + new₀.card + new₁.card := by
        rw [Finset.card_union_of_disjoint hd₁, Finset.card_union_of_disjoint hd₀,
          Finset.card_union_of_disjoint (by simpa using hne), Finset.card_singleton,
          Finset.card_singleton]
      rw [hcount, hown, hlead₀, hlead₁]
      exact ⟨by omega, rfl, by omega⟩
    · right
      have hzero : (pm₂.copyDirectory (c₂ * 4096) 0).frames.bitmap.freeFrames = 0 := by
        rw [Bitmap.freeFrames, hempty, Finset.card_empty]
      rw [hcount, hpres, Bool.toNat_true]
      have hnone := hdir₁.takes.left
      rw [hempty, Finset.empty_sdiff] at hnone
      refine ⟨by omega, hnone, hflag, _, ?_, 1,
        directory hp (i := 1) (by decide) (by rw [← hentry₁]; exact hpres)⟩
      rw [hown, Finset.mem_union, ← hentry₁, ← hkept]
      exact Or.inr (address_mem_directoryFrame (by rw [hkept]; exact hpres))
  · right
    have hzero : pm₂.frames.bitmap.freeFrames = 0 := by
      rw [Bitmap.freeFrames, hempty, Finset.card_empty]
    rw [hcount, hpres, Bool.toNat_true]
    rw [hcopy 0 (by decide)] at hkept hpres
    have hflag' : ((pm₂.copyDirectory (c₂ * 4096) 0).copyDirectory (c₂ * 4096) 1).outOfFrames =
        true := by
      by_contra hc
      rw [Bool.not_eq_true] at hc
      rw [PageManager.outOfFrames_copyDirectory hc] at hflag
      cases hflag
    have hnone := (hdir₀.takes.trans hdir₁.takes).left
    rw [hempty, Finset.empty_sdiff] at hnone
    refine ⟨by omega, hnone, hflag', _, ?_, 1, directory hp (i := 0) (by decide) hpres⟩
    rw [hown, Finset.mem_union, Finset.mem_union, ← hkept]
    exact Or.inl (Or.inr (address_mem_directoryFrame (by rw [hkept]; exact hpres)))

/-- `CreateProcessPageTable` fails when no frame is free, and else returns a root. -/
theorem createProcessPageTable (h : TablesUsed pm) :
    (pm.frames.bitmap.freeSet = ∅ ∧
      pm.createProcessPageTable = (0, { pm with outOfFrames := true })) ∨
    ∃ r taken pm', pm.createProcessPageTable = (r * 4096, pm') ∧ CreatesRoot pm r taken pm' := by
  have hK := h.used 3 _ TableAt.root
  rcases PageManager.copyPageTable_gains h.free hK with
    ⟨hempty, he⟩ | ⟨c₁, pm₁, hpos₁, -, he, hg₁, hcopy₁⟩
  · left
    rw [← h.aligned] at he
    simp only [PageManager.createProcessPageTable, he]
    exact ⟨hempty, if_pos trivial⟩
  rw [← h.aligned] at he
  have hfree₁ := hg₁.takes.freeFrames
  rw [Finset.card_singleton] at hfree₁
  right
  rw [PageManager.createProcessPageTable, he]
  dsimp only
  rw [if_neg (by omega), PageManager.entry_mul, hcopy₁ 0 (by decide)]
  have hroot : c₁ ∈ ({c₁} : Finset Nat) := Finset.mem_singleton_self c₁
  by_cases hp : (pm.memory (pm.pml4Table / 4096) 0).present = true
  · rw [if_pos hp, PageManager.getAddress_eq]
    have hP := h.used 2 _ (pdp hp)
    have hPc₁ : (pm.memory (pm.pml4Table / 4096) 0).address ∉ ({c₁} : Finset Nat) := fun hc =>
      Bitmap.get_eq_true_iff.mp hP (hg₁.takes.free hc)
    rcases PageManager.copyPageTable_gains (hg₁.freeNamed h.free) (hg₁.takes.used hP) with
      ⟨hempty, he₂⟩ | ⟨c₂, pm₂, hpos₂, hc40, he₂, hg₂, hcopy₂⟩
    · -- The new root leads to the kernel's own PDP table.
      rw [he₂]
      dsimp only
      rw [if_pos rfl]
      refine ⟨c₁, {c₁}, _, rfl, hroot, hg₁.outOfFrames true,
        Or.inr ⟨?_, hempty, rfl, _, ?_, 2, pdp hp⟩⟩
      · rw [Bitmap.freeFrames, hempty, Finset.card_empty] at hfree₁
        rw [tableCount, if_pos hp]
        omega
      · rw [ownFrames]
        dsimp only
        rw [hcopy₁ 0 (by decide), if_pos hp, Finset.mem_insert, Finset.mem_insert]
        exact Or.inr (Or.inl rfl)
    · rw [he₂]
      dsimp only
      have hc₁₂ : c₁ ∉ ({c₂} : Finset Nat) :=
        Finset.disjoint_left.mp (hg₁.takes.disjoint hg₂.takes) hroot
      have hc₂₁ : c₂ ≠ c₁ := fun hc => hc₁₂ (Finset.mem_singleton.mpr hc.symm)
      have hentry : pm₂.memory c₁ 0 = pm.memory (pm.pml4Table / 4096) 0 := by
        rw [hg₂.memory c₁ hc₁₂, hcopy₁ 0 (by decide)]
      rw [if_neg (by omega), PageManager.entry_mul, hentry]
      have hf := @fields_relink c₂ (pm.memory (pm.pml4Table / 4096) 0) hc40
      obtain ⟨taken, htaken⟩ := h.copyDirectories hp ((hg₁.trans hg₂).setEntry
        (Finset.mem_union_left _ hroot) 0
        ((pm.memory (pm.pml4Table / 4096) 0).setAddress (c₂ * 4096))) hc₂₁.symm
        (by
          rw [PageManager.setEntry_mul]
          dsimp only
          rw [storeWord_self]
          exact (congrArg Fields.present hf).trans hp)
        (by
          rw [PageManager.setEntry_mul]
          dsimp only
          rw [storeWord_self]
          exact congrArg Fields.address hf)
        (fun j hj => by
          rw [PageManager.setEntry_mul]
          dsimp only
          rw [storeWord_of_ne fun hc => hc₂₁ hc.1, hcopy₂ j hj, hg₁.memory _ hPc₁])
      exact ⟨c₁, taken, _, rfl, htaken⟩
  · rw [if_neg hp]
    refine ⟨c₁, {c₁}, pm₁, rfl, hroot, hg₁, Or.inl ⟨?_, ?_, ?_⟩⟩
    · rw [tableCount, if_neg hp]
      omega
    · rw [ownFrames, hcopy₁ 0 (by decide), if_neg hp]
    · rw [tableCount, if_neg hp, Finset.card_singleton]

end TablesUsed

/-- `FreeProcessPageTable` of the root that `CreateProcessPageTable` returns. -/
def PageManager.createAndFree (pm : PageManager) : PageManager :=
  pm.createProcessPageTable.2.freeProcessPageTable pm.createProcessPageTable.1

/-- If a root is returned, then freeing it restores the bitmap, and no table of the kernel
has changed. -/
def PageManager.Restored (pm : PageManager) : Prop :=
  pm.createProcessPageTable.1 ≠ 0 →
    pm.createAndFree.frames.bitmap = pm.frames.bitmap ∧
      ∀ n t, TableAt pm.memory (pm.pml4Table / 4096) n t →
        ∀ i < 512, pm.createAndFree.memory t i = pm.memory t i

namespace CreatesRoot

variable {pm pm' : PageManager} {r : Nat} {taken : Finset Nat}

/-- What `FreeProcessPageTable` then frees. -/
theorem frees (h : CreatesRoot pm r taken pm') (hk : TablesUsed pm) :
    PageManager.Frees pm' (ownFrames pm'.memory r) (ownFrames pm'.memory r)
      (pm'.freeProcessPageTable (r * 4096)) := by
  have hr := h.gains.takes.free h.root
  refine PageManager.freeProcessPageTable_frees pm' (hk.free r hr).1 fun hc => ?_
  rw [h.gains.pml4] at hc
  have hK := hk.used 3 _ TableAt.root
  rw [← hc, Nat.mul_div_cancel r (by decide)] at hK
  exact Bitmap.get_eq_true_iff.mp hK hr

/-- With enough frames, exactly the frames that were taken are given back. -/
theorem restores (h : CreatesRoot pm r taken pm') (hk : TablesUsed pm)
    (hown : ownFrames pm'.memory r = taken) :
    (pm'.freeProcessPageTable (r * 4096)).frames.bitmap = pm.frames.bitmap ∧
      ∀ n t, TableAt pm.memory (pm.pml4Table / 4096) n t →
        ∀ i < 512, (pm'.freeProcessPageTable (r * 4096)).memory t i = pm.memory t i := by
  have hf := h.frees hk
  refine ⟨Bitmap.eq_of_freeSet (hf.size.trans h.gains.takes.size) ?_, fun n t ht i _ => ?_⟩
  · have hall : pm'.managed taken = taken := by
      rw [PageManager.managed, h.gains.takes.size]
      refine Finset.filter_true_of_mem fun f hf => ?_
      exact Bitmap.lt_size_of_get (Bitmap.mem_freeSet.mp (h.gains.takes.free hf))
    rw [hf.free, hown, hall, h.gains.takes.left,
      Finset.sdiff_union_of_subset h.gains.takes.free]
  · have hused := hk.used n t ht
    have htaken : t ∉ taken := fun hc =>
      Bitmap.get_eq_true_iff.mp hused (h.gains.takes.free hc)
    rw [hf.memory t (hown ▸ htaken), h.gains.memory t htaken]

/-- A table of the kernel that is freed is missing from the bitmap. -/
theorem not_restores (h : CreatesRoot pm r taken pm') (hk : TablesInUse pm) {n t : Nat}
    (ht : TableAt pm.memory (pm.pml4Table / 4096) n t) (hown : t ∈ ownFrames pm'.memory r) :
    (pm'.freeProcessPageTable (r * 4096)).frames.bitmap ≠ pm.frames.bitmap := by
  intro hc
  have hused := hk.used n t ht
  refine Bitmap.get_eq_true_iff.mp hused ?_
  rw [← hc, (h.frees hk.toTablesUsed).free, Finset.mem_union, PageManager.managed,
    Finset.mem_filter,
    h.gains.takes.size]
  exact Or.inr ⟨hown, hk.managed n t ht⟩

end CreatesRoot

/-- Freeing a new page table undoes its creation unless a frame was left for the root but
not for every copy. -/
theorem create_free_restores_iff {pm : PageManager} (h : TablesInUse pm) :
    pm.Restored ↔ pm.frames.bitmap.freeFrames = 0 ∨
      tableCount pm.memory (pm.pml4Table / 4096) ≤ pm.frames.bitmap.freeFrames := by
  rw [PageManager.Restored, PageManager.createAndFree]
  rcases h.createProcessPageTable with ⟨hempty, he⟩ | ⟨r, taken, pm', he, hc⟩
  · rw [he]
    refine iff_of_true (fun hne => absurd rfl hne) (Or.inl ?_)
    rw [Bitmap.freeFrames, hempty, Finset.card_empty]
  · rw [he]
    have hr := hc.gains.takes.free hc.root
    have hpos := (h.free r hr).1
    have hsome : pm.frames.bitmap.freeFrames ≠ 0 := Finset.card_ne_zero_of_mem hr
    rcases hc.own with ⟨hle, hown, -⟩ | ⟨hlt, -, -, t, hmem, n, ht⟩
    · exact iff_of_true (fun _ => hc.restores h.toTablesUsed hown) (Or.inr hle)
    · refine iff_of_false (fun hrestored => ?_) (by omega)
      exact hc.not_restores h ht hmem (hrestored (by dsimp only; omega)).1

/-- The tables of `Initialize`, with the root in frame 1, the PDP table in frame 2 and the
directories in the frames 3 to 66. -/
def identityTables (t i : Nat) : PageTableEntry :=
  if t = 1 then if i = 0 then newLink 2 true else 0
  else if t = 2 then if i < 64 then newLink (i + 3) true else 0
  else if 3 ≤ t ∧ t < 67 then identityTable (t - 3) i
  else 0

/-- The kernel with its tables, and the bytes of the bitmap from frame 64 on. -/
def bootedKernel (bytes : List (BitVec 8)) : PageManager where
  frames := ⟨⟨List.replicate 8 0xFF#8 ++ bytes⟩, (64 + bytes.length * 8) * 4096⟩
  memory := identityTables
  pml4Table := 4096
  cr3 := 4096
  outOfFrames := false

private theorem identityTables_at {n t : Nat} (h : TableAt identityTables 1 n t) :
    (n = 3 ∧ t = 1) ∨ (n = 2 ∧ t = 2) ∨ (n = 1 ∧ 3 ≤ t ∧ t < 67) := by
  induction h with
  | root => exact Or.inl ⟨rfl, rfl⟩
  | @child n t i _ hi hs ih =>
    rcases ih with ⟨hn, rfl⟩ | ⟨hn, rfl⟩ | ⟨hn, hlo, hhi⟩
    · have hi0 : i = 0 := by
        by_contra hc
        simp [identityTables, hc, stops_eq_false, PageTableEntry.present] at hs
      subst hi0
      have ha : (identityTables 1 0).address = 2 := by decide
      exact Or.inr (Or.inl ⟨by omega, ha⟩)
    · have hi64 : i < 64 := by
        by_contra hc
        simp [identityTables, hc, stops_eq_false, PageTableEntry.present] at hs
      have ha : (identityTables 2 i).address = i + 3 := by
        have he : identityTables 2 i = newLink (i + 3) true := by simp [identityTables, hi64]
        rw [he]
        exact congrArg Fields.address (fields_newLink (by omega) true)
      exact Or.inr (Or.inr ⟨by omega, by omega, by omega⟩)
    · -- The directories hold 2 MB pages only.
      have he : identityTables t i = identityTable (t - 3) i := by
        simp only [identityTables]
        rw [if_neg (by omega), if_neg (by omega), if_pos ⟨hlo, hhi⟩]
      have hf := fields_identityTable (n := t - 3) (by omega) hi
      rw [he, stops_eq_false] at hs
      have hhuge : (identityTable (t - 3) i).hugePage = true := congrArg Fields.hugePage hf
      rw [hs.2 hn] at hhuge
      cases hhuge

private theorem bootedKernel_at {b : List (BitVec 8)} {n t : Nat}
    (h : TableAt (bootedKernel b).memory ((bootedKernel b).pml4Table / 4096) n t) : t < 67 := by
  have hroot : (bootedKernel b).pml4Table = 4096 := rfl
  rw [hroot, Nat.div_self (by decide)] at h
  rcases identityTables_at h with ⟨-, rfl⟩ | ⟨-, rfl⟩ | ⟨-, -, hlt⟩
  · decide
  · decide
  · exact hlt

/-- The kernel's own frames are used and in the bitmap, and frame 0 and frames that an entry
cannot name are not free. -/
def Fits (bytes : List (BitVec 8)) : Prop :=
  (∀ f < 67, (bootedKernel bytes).frames.bitmap.get f = true) ∧ 0 < bytes.length ∧
    bytes.length < 2 ^ 32

instance (bytes : List (BitVec 8)) : Decidable (Fits bytes) := inferInstanceAs (Decidable (_ ∧ _))

theorem bootedKernel_tablesInUse {bytes : List (BitVec 8)} (h : Fits bytes) :
    TablesInUse (bootedKernel bytes) := by
  have hsize : (bootedKernel bytes).frames.bitmap.bitmapSize = 8 + bytes.length := by
    rw [bootedKernel, Bitmap.bitmapSize, List.length_append, List.length_replicate]
  have hroot : (bootedKernel bytes).pml4Table = 4096 := rfl
  obtain ⟨hused, hpos, hlen⟩ := h
  refine ⟨⟨by omega, fun n t ht => hused t (bootedKernel_at ht), fun f hf => ?_⟩, fun n t ht => ?_⟩
  · rw [Bitmap.mem_freeSet] at hf
    have hrange := Bitmap.lt_size_of_get hf
    refine ⟨Nat.pos_of_ne_zero ?_, by omega⟩
    rintro rfl
    rw [hused 0 (by decide)] at hf
    cases hf
  · have hlt := bootedKernel_at ht
    omega

/-- With five free frames the kernel and the bitmap are as before. -/
theorem create_free_restores_five :
    (bootedKernel [0x07#8]).createProcessPageTable.1 ≠ 0 ∧ (bootedKernel [0x07#8]).Restored :=
  ⟨by decide +kernel, (create_free_restores_iff (bootedKernel_tablesInUse (by decide))).mpr
    (Or.inr (by decide +kernel))⟩

/-- With two free frames the directories of the kernel are freed. -/
theorem create_free_two_frames :
    TablesInUse (bootedKernel [0x3F#8]) ∧ ¬ (bootedKernel [0x3F#8]).Restored := by
  refine ⟨bootedKernel_tablesInUse (by decide), fun h => ?_⟩
  have hroot : (bootedKernel [0x3F#8]).createProcessPageTable.1 ≠ 0 := by decide +kernel
  have hfreed : (bootedKernel [0x3F#8]).createAndFree.frames.bitmap.get 3 = false := by
    decide +kernel
  rw [(h hroot).1] at hfreed
  exact absurd hfreed (by decide)

end Sylphia
