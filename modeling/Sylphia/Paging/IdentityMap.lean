import Sylphia.Memory.FreeFrames
import Sylphia.Paging.Isolation
import Sylphia.Paging.Shortage

/-!
# The identity mapping of the kernel

The kernel uses physical addresses as pointers: it clears frames, walks page tables and reads
its buffers where `Initialize` has mapped the first 64 GB to themselves. The pages of apps are
mapped over this identity mapping, in all of whose range the allocator hands out frames.
-/

namespace Sylphia

open RadixTree PageTableEntry

/-- The number of pages of the identity mapping. -/
def identityPages : Nat := 2 ^ 24

/-- What the identity mapping gives for a page. -/
def Translation.identity (page : Nat) : Translation := ⟨page, true, true, true⟩

private theorem lookup_huge {memory : Nat → Nat → PageTableEntry} {d page a : Nat}
    (hf : fields (memory d (pageFormat.index 1 page)) = ⟨true, true, true, true, a⟩) :
    pageFormat.lookup memory 1 d page = ⟨a / 512 * 512 + page % 512, true, true, true⟩ := by
  obtain ⟨hp, hw, hu, hh, ha⟩ := Fields.mk.inj hf
  have hlook := @lookup_of_stops memory d page 0 (stops_of_huge hh)
  rw [Nat.zero_add, hp, if_pos rfl, Translation.ofHuge, Translation.ofLeaf, hp, hw, hu, ha] at hlook
  exact hlook

/-- After `Initialize` the first 64 GB are mapped to themselves. -/
theorem Booted.lookup_identity {root pdp : Nat} {label : Labelling} {pm : PageManager}
    (h : Booted 64 root pdp label pm) (hi : IdentityDirectories label pm.memory) {page : Nat}
    (hpage : page < identityPages) :
    pageFormat.lookup pm.memory 3 root page = .identity page := by
  rw [identityPages] at hpage
  have hroot : label root = some (pageFormat.place 3 page) := by
    rw [h.rooted, place_three (by omega)]
  have hdown {m t : Nat} (hm : m ≠ 0) (ho : Opens pm.memory true page root (m + 1) t)
      (hp : (pm.memory t (pageFormat.index (m + 1) page)).present = true) :
      Opens pm.memory true page root m (pm.memory t (pageFormat.index (m + 1) page)).address := by
    have hlab := ho.label_eq h.tables.labelled hroot
    have hlt := index_lt_base (m + 1) page
    exact ho.child (stops_eq_false.mpr ⟨hp, fun h1 => by omega⟩)
      (h.tables.writable t m _ _ hlab hlt hp) fun _ => h.allUser t m _ _ hlab hlt hp
  have h3 : pageFormat.index 3 page = 0 := by
    show page / 512 ^ 3 % 512 = 0
    omega
  have hpdp := hdown two_ne_zero .root (by rw [h3]; exact h.rootLink)
  rw [h.pdpOnly _ _ (hpdp.label_eq h.tables.labelled hroot)] at hpdp
  have h2 : pageFormat.index 2 page < 64 := by
    show page / 512 ^ 2 % 512 < 64
    omega
  have hpd := hdown one_ne_zero hpdp (h.links _ h2)
  have hlab := hpd.label_eq h.tables.labelled hroot
  rw [hpd.lookup_eq fun _ => rfl, lookup_huge (hi _ _ _ hlab (index_lt_base 1 page)),
    Translation.identity]
  have haddr : (page / 512 ^ 2 * 2 ^ 18 + page / 512 ^ 1 % 512 * 2 ^ 9) / 512 * 512 + page % 512 =
      page := by omega
  exact congrArg (fun p => (⟨p, true, true, true⟩ : Translation)) haddr

/-- The page manager, the roots that `CreateProcessPageTable` has returned, and the frames that
the kernel holds apart from page tables: its image, buffers, tasks and stacks. -/
structure AddressSpaces where
  pm : PageManager
  processes : List Nat
  held : List Nat

/-- The calls of a run; `allocate` is `MemoryManager::Allocate`, called by the kernel for a
buffer, a task or a stack of its own. -/
inductive SpaceOp
  | createProcessPageTable
  | allocateVirtual (virtualAddr size flags : Nat)
  | allocateVirtualForProcess (targetCr3 virtualAddr size flags : Nat)
  | allocate (size : Nat)
  deriving DecidableEq, Repr

/-- The pages that a call maps. -/
def SpaceOp.Maps : SpaceOp → Nat → Prop
  | .allocateVirtual v size _ => RangePages v size
  | .allocateVirtualForProcess _ v size _ => RangePages v size
  | _ => fun _ => False

namespace AddressSpaces

/-- The roots in use. -/
def roots (s : AddressSpaces) : List Nat := s.pm.getKernelCR3 :: s.processes

def step (s : AddressSpaces) : SpaceOp → AddressSpaces
  | .createProcessPageTable =>
    let (cr3, pm) := s.pm.createProcessPageTable
    { s with pm, processes := if cr3 = 0 then s.processes else cr3 :: s.processes }
  | .allocateVirtual v size flags => { s with pm := (s.pm.allocateVirtual v size flags).2 }
  | .allocateVirtualForProcess cr3 v size flags =>
    { s with pm := (s.pm.allocateVirtualForProcess cr3 v size flags).2 }
  | .allocate size =>
    let (ptr, frames) := s.pm.frames.allocate size
    { s with
      pm := { s.pm with frames }
      held := if ptr = 0 then s.held
        else List.range' (ptr / kFrameSize) (MemoryManager.numFrames size) ++ s.held }

theorem held_create (s : AddressSpaces) : (s.step .createProcessPageTable).held = s.held := rfl

/-- The target of a call is a process, and the loaders and the task manager map pages for
user mode only. -/
def Admissible (s : AddressSpaces) : SpaceOp → Prop
  | .allocateVirtual _ _ flags => hasFlag flags kUser = true
  | .allocateVirtualForProcess cr3 _ _ flags => cr3 ∈ s.processes ∧ hasFlag flags kUser = true
  | _ => True

/-- The state after `Initialize`, which has found frames for all its tables. The kernel may hold
any of the frames that were in use before. -/
def Start (s : AddressSpaces) : Prop :=
  (∃ pm, Bootable pm ∧ pm.initializePaging = some s.pm ∧
    ∀ f ∈ s.held, pm.frames.bitmap.get f = true) ∧
  s.processes = [] ∧ s.pm.outOfFrames = false

/-- The runs from `Initialize` on. -/
abbrev Runs := Transition.Run step Admissible Start

/-- The frame is a page table that a walk from a root in use can meet. -/
def IsTable (s : AddressSpaces) (f : Nat) : Prop :=
  ∃ cr3 ∈ s.roots, ∃ page < 2 ^ 36, ∃ k, pageFormat.meets s.pm.memory k 3 (cr3 / 4096) page = some f

/-- The frame is in use, and it is the kernel that holds it. -/
def KernelHolds (s : AddressSpaces) (f : Nat) : Prop :=
  s.pm.frames.bitmap.get f = true ∧ (f ∈ s.held ∨ s.IsTable f)

/-- Every root in use maps the frames that the kernel holds to themselves. -/
def IdentityMapped (s : AddressSpaces) : Prop :=
  ∀ cr3 ∈ s.roots, ∀ f < identityPages, s.KernelHolds f →
    translate s.pm.memory cr3 (f * 4096) = .identity f

/-- Below 64 GB a call maps only pages that have the number of a frame that is neither free nor
held by the kernel. -/
def MapsElsewhere (_past : List (AddressSpaces × SpaceOp)) (x : AddressSpaces × SpaceOp) : Prop :=
  ∀ page < identityPages, x.2.Maps page →
    x.1.pm.frames.bitmap.get page = true ∧ ¬x.1.KernelHolds page

/-- All labelled tables are met, and the frames that the kernel holds or may come to hold are
mapped to themselves. The pool is a set of frames that the allocator has not left. -/
structure Inv (pool : Nat → Prop) (label : Labelling) (s : AddressSpaces) : Prop where
  spaces : Spaces label s.pm
  rooted : ∀ cr3 ∈ s.roots, cr3 % 4096 = 0 ∧ label (cr3 / 4096) = some (3, 0)
  met : ∀ t, label t ≠ none → s.IsTable t
  held : ∀ f ∈ s.held, s.pm.frames.bitmap.get f = true
  inside : ∀ f, s.pm.frames.bitmap.get f = false ∨ label f ≠ none → pool f
  identity : ∀ cr3 ∈ s.roots, ∀ f < identityPages,
    s.pm.frames.bitmap.get f = false ∨ f ∈ s.held ∨ label f ≠ none →
    pageFormat.lookup s.pm.memory 3 (cr3 / 4096) f = .identity f

variable {s s' : AddressSpaces} {label label' : Labelling} {pages pool : Nat → Prop}

theorem isTable_root {cr3 : Nat} (hcr3 : cr3 ∈ s.roots) : s.IsTable (cr3 / 4096) :=
  ⟨cr3, hcr3, 0, by decide, 3, rfl⟩

/-- A table below a table is one, too. -/
theorem IsTable.child {t n lead i : Nat} (ht : s.IsTable t)
    (hl : pageFormat.Labelled label s.pm.memory)
    (hrooted : ∀ cr3 ∈ s.roots, label (cr3 / 4096) = some (3, 0))
    (hlab : label t = some (n + 1, lead)) (hi : i < 512)
    (hs : pageFormat.stops (n + 1) (s.pm.memory t i) = false) :
    s.IsTable (s.pm.memory t i).address := by
  obtain ⟨cr3, hcr3, page, hpage, k, hm⟩ := ht
  have hplace := hl.meets_place base_pos (by rw [place_three hpage]; exact hrooted cr3 hcr3) hm
  rw [hlab, Format.place, Option.some.injEq, Prod.mk.injEq] at hplace
  obtain ⟨rfl, -⟩ := hplace
  obtain ⟨page', hlead, hm'⟩ := Format.meets_child base_pos hm hi hs
  refine ⟨cr3, hcr3, page', ?_, n, hm'⟩
  have hz : page / pageFormat.base ^ (3 + 1) = 0 := Nat.div_eq_of_lt hpage
  rw [hz] at hlead
  exact (Nat.div_eq_zero_iff_lt (by decide)).mp hlead

/-- The labels of tables that no root in use leads to are dropped. -/
theorem Inv.of_spaces (h : Spaces label s.pm)
    (hrooted : ∀ cr3 ∈ s.roots, cr3 % 4096 = 0 ∧ label (cr3 / 4096) = some (3, 0))
    (hheld : ∀ f ∈ s.held, s.pm.frames.bitmap.get f = true)
    (hinside : ∀ f, s.pm.frames.bitmap.get f = false ∨ label f ≠ none → pool f)
    (hidentity : ∀ cr3 ∈ s.roots, ∀ f < identityPages,
      s.pm.frames.bitmap.get f = false ∨ f ∈ s.held ∨ label f ≠ none →
      pageFormat.lookup s.pm.memory 3 (cr3 / 4096) f = .identity f) :
    ∃ label', Inv pool label' s := by
  have hlabel {t : Nat} (ht : restrict label s.IsTable t ≠ none) :
      s.IsTable t ∧ label t ≠ none := by
    obtain ⟨x, hx⟩ := Option.ne_none_iff_exists'.mp ht
    obtain ⟨htable, hl⟩ := restrict_eq_some.mp hx
    exact ⟨htable, by simp [hl]⟩
  refine ⟨restrict label s.IsTable, ?_, fun cr3 hcr3 => ?_, fun t ht => (hlabel ht).1, hheld,
    fun f hf => hinside f (hf.imp_right fun hl => (hlabel hl).2), ?_⟩
  · exact h.restrict fun t n lead i ht hlab hi hs =>
      ht.child h.tables.labelled (fun cr3 hcr3 => (hrooted cr3 hcr3).2) hlab hi hs
  · obtain ⟨haligned, hroot⟩ := hrooted cr3 hcr3
    exact ⟨haligned, restrict_eq_some.mpr ⟨isTable_root hcr3, hroot⟩⟩
  · intro cr3 hcr3 f hf hcase
    refine hidentity cr3 hcr3 f hf ?_
    rcases hcase with hfree | hh | hl
    · exact Or.inl hfree
    · exact Or.inr (Or.inl hh)
    · exact Or.inr (Or.inr (hlabel hl).2)

/-! ## The steps -/

/-- A call that maps none but these pages keeps the invariant, and new roots may have the
translations of old ones. -/
theorem Inv.changes (h : Inv pool label s) (hc : Changes pages label s.pm label' s'.pm)
    (hpages : ∀ f < identityPages, pages f →
      s.pm.frames.bitmap.get f = true ∧ ¬s.KernelHolds f)
    (hheld : s'.held = s.held)
    (hroots : ∀ cr3 ∈ s'.roots, cr3 ∈ s.roots ∨ cr3 % 4096 = 0 ∧
      label' (cr3 / 4096) = some (3, 0) ∧ ∃ old ∈ s.roots, ∀ page < 2 ^ 36,
        pageFormat.lookup s'.pm.memory 3 (cr3 / 4096) page =
          pageFormat.lookup s.pm.memory 3 (old / 4096) page) :
    ∃ label'', Inv pool label'' s' := by
  have hfree' {f : Nat} (hf : s'.pm.frames.bitmap.get f = false) :
      s.pm.frames.bitmap.get f = false := by
    by_contra hg
    rw [hc.grows.used f (by simpa using hg)] at hf
    cases hf
  -- What is free or the kernel's afterwards was so before.
  have hbefore {f : Nat}
      (hf : s'.pm.frames.bitmap.get f = false ∨ f ∈ s'.held ∨ label' f ≠ none) :
      s.pm.frames.bitmap.get f = false ∨ f ∈ s.held ∨ label f ≠ none := by
    rcases hf with hfree | hh | hl
    · exact Or.inl (hfree' hfree)
    · exact Or.inr (Or.inl (hheld ▸ hh))
    · by_cases hold : label f = none
      · exact Or.inl (hc.grows.fresh f hold hl)
      · exact Or.inr (Or.inr hold)
  have hnot {f : Nat} (hf : f < identityPages)
      (hcase : s.pm.frames.bitmap.get f = false ∨ f ∈ s.held ∨ label f ≠ none) : ¬pages f := by
    intro ho
    obtain ⟨hused, hnone⟩ := hpages f hf ho
    rcases hcase with hfree | hh | hl
    · rw [hused] at hfree
      cases hfree
    · exact hnone ⟨hused, Or.inl hh⟩
    · exact hnone ⟨hused, Or.inr (h.met f hl)⟩
  refine Inv.of_spaces hc.spaces (fun cr3 hcr3 => ?_) (fun f hf => ?_) (fun f hf => ?_)
    fun cr3 hcr3 f hf hcase => ?_
  · rcases hroots cr3 hcr3 with hold | ⟨haligned, hlab, -⟩
    · exact ⟨(h.rooted cr3 hold).1, hc.labels _ _ (h.rooted cr3 hold).2⟩
    · exact ⟨haligned, hlab⟩
  · exact hc.grows.used f (h.held f (hheld ▸ hf))
  · rcases hf with hfree | hl
    · exact h.inside f (Or.inl (hfree' hfree))
    · by_cases hold : label f = none
      · exact h.inside f (Or.inl (hc.grows.fresh f hold hl))
      · exact h.inside f (Or.inr hold)
  · have hcase' := hbefore hcase
    have hpage : f < 2 ^ 36 := lt_trans hf (by decide)
    rcases hroots cr3 hcr3 with hold | ⟨-, -, old, hold, hsame⟩
    · have hplace : label (cr3 / 4096) = some (pageFormat.place 3 f) := by
        rw [(h.rooted cr3 hold).2, place_three hpage]
      rw [hc.others _ f hplace (hnot hf hcase')]
      exact h.identity cr3 hold f hf hcase'
    · rw [hsame f hpage]
      exact h.identity old hold f hf hcase'

/-- The kernel takes frames for itself. -/
theorem Inv.allocate (h : Inv pool label s) (size : Nat) :
    ∃ label', Inv pool label' (s.step (.allocate size)) := by
  rcases s.pm.frames.allocate_takes size with he | ⟨i, frames', htakes, he⟩
  · have hstep : s.step (.allocate size) = s := by simp only [step, he, if_true]
    rw [hstep]
    exact ⟨label, h⟩
  · have hfalse {f : Nat} (hf : frames'.bitmap.get f = false) :
        s.pm.frames.bitmap.get f = false := by
      by_contra hc
      rw [htakes.used (by simpa using hc)] at hf
      cases hf
    have hheld {f : Nat} (hf : f ∈ (s.step (.allocate size)).held) :
        f ∈ s.held ∨ f ∈ MemoryManager.blockFrames (i * kFrameSize) size := by
      rw [step, he] at hf
      dsimp only at hf
      split at hf
      · exact Or.inl hf
      · rw [List.mem_append, List.mem_range'_1] at hf
        rw [MemoryManager.blockFrames, Finset.mem_Ico]
        exact hf.symm
    have hframes : (s.step (.allocate size)).pm = { s.pm with frames := frames' } := by
      rw [step, he]
    have hroots : (s.step (.allocate size)).roots = s.roots := by
      rw [roots, roots, hframes]
      rfl
    have hspaces : Spaces label (s.step (.allocate size)).pm := by
      rw [hframes]
      exact ⟨h.spaces.tables, ⟨h.spaces.allocated.null,
        fun t ht => htakes.used (h.spaces.allocated.used t ht),
        fun t ht => h.spaces.allocated.free t (hfalse ht)⟩, h.spaces.allUser⟩
    refine Inv.of_spaces hspaces (fun cr3 hcr3 => ?_) (fun f hf => ?_) (fun f hf => ?_)
      fun cr3 hcr3 f hf hcase => ?_
    · exact h.rooted cr3 (hroots ▸ hcr3)
    · rw [hframes]
      rcases hheld hf with hold | hin
      · exact htakes.used (h.held f hold)
      · exact htakes.taken hin
    · rw [hframes] at hf
      exact h.inside f (hf.imp_left hfalse)
    · rw [hframes] at hcase ⊢
      refine h.identity cr3 (hroots ▸ hcr3) f hf ?_
      rcases hcase with hfr | hh | hl
      · exact Or.inl (hfalse hfr)
      · rcases hheld hh with hold | hin
        · exact Or.inr (Or.inl hold)
        · exact Or.inl (Bitmap.mem_freeSet.mp (htakes.free hin))
      · exact Or.inr (Or.inr hl)

/-- `AllocateVirtual` under one of the roots, whatever the registers hold. -/
private theorem Inv.allocateVirtual {cr3 v size flags y z : Nat} (h : Inv pool label s)
    (hcr3 : cr3 ∈ s.roots) (hu : hasFlag flags kUser = true)
    (hpages : ∀ f < identityPages, RangePages v size f →
      s.pm.frames.bitmap.get f = true ∧ ¬s.KernelHolds f) :
    ∃ label', Inv pool label' { s with
      pm := {
        (PageManager.allocateVirtual { s.pm with pml4Table := cr3, cr3 := y } v size flags).2 with
        pml4Table := s.pm.pml4Table
        cr3 := z } } := by
  obtain ⟨haligned, hroot⟩ := h.rooted cr3 hcr3
  have hspaces : Spaces label { s.pm with pml4Table := cr3, cr3 := y } :=
    ⟨h.spaces.tables, h.spaces.allocated, h.spaces.allUser⟩
  obtain ⟨label', hc⟩ := hspaces.allocateVirtual hroot (by dsimp only; omega) hu
  refine h.changes ⟨⟨hc.spaces.tables, hc.spaces.allocated, hc.spaces.allUser⟩, hc.labels, hc.grows,
    hc.others, rfl⟩ hpages rfl fun r hr => Or.inl hr

/-- One call keeps the invariant when it maps pages elsewhere. -/
theorem step_inv {o : SpaceOp} (h : Inv pool label s) (ho : s.Admissible o)
    (hmaps : MapsElsewhere [] (s, o)) : ∃ label', Inv pool label' (s.step o) := by
  have hkernel : s.pm.getKernelCR3 ∈ s.roots := List.mem_cons_self ..
  cases o with
  | createProcessPageTable =>
    obtain ⟨haligned, hlab⟩ := h.rooted _ hkernel
    rw [PageManager.getKernelCR3] at haligned hlab
    have hpml4 : s.pm.pml4Table = s.pm.pml4Table / 4096 * 4096 := by omega
    rcases h.spaces.createProcessPageTable hlab hpml4 with he | ⟨a, label', pm', he, ha, hadds⟩
    · rw [step, he]
      have hc : Changes (fun _ => False) label s.pm label { s.pm with outOfFrames := true } :=
        .record h.spaces true
      exact h.changes hc (fun _ _ hf => hf.elim) rfl fun r hr => Or.inl hr
    · rw [step, he]
      refine h.changes hadds.changes (fun _ _ hf => hf.elim) rfl fun r hr => ?_
      dsimp only at hr ⊢
      rw [roots, PageManager.getKernelCR3, hadds.changes.pml4, if_neg (by omega)] at hr
      simp only [List.mem_cons] at hr
      rcases hr with rfl | rfl | hr
      · exact Or.inl hkernel
      · rw [Nat.mul_div_cancel a (by decide)]
        exact Or.inr ⟨Nat.mul_mod_left a 4096, hadds.rooted, _, hkernel, hadds.translates⟩
      · exact Or.inl (List.mem_cons_of_mem _ hr)
  | allocateVirtual v size flags =>
    obtain ⟨haligned, hlab⟩ := h.rooted _ hkernel
    rw [PageManager.getKernelCR3] at haligned hlab
    obtain ⟨label', hc⟩ := h.spaces.allocateVirtual hlab (by omega) ho
    refine h.changes hc hmaps rfl fun r hr => Or.inl ?_
    rw [step, roots, PageManager.getKernelCR3, hc.pml4] at hr
    exact hr
  | allocateVirtualForProcess cr3 v size flags =>
    obtain ⟨y, z, he⟩ := PageManager.allocateVirtualForProcess_eq s.pm cr3 v size flags
    rw [step, he]
    exact h.allocateVirtual (List.mem_cons_of_mem _ ho.1) ho.2 hmaps
  | allocate size => exact h.allocate size

/-- After `Initialize` the invariant holds, with the frames that were free before as the pool. -/
theorem Inv.start {pm : PageManager} (hb : Bootable pm) (hi : pm.initializePaging = some s.pm)
    (hout : s.pm.outOfFrames = false) (hp : s.processes = [])
    (hheld : ∀ f ∈ s.held, pm.frames.bitmap.get f = true) :
    ∃ label, Inv (fun f => pm.frames.bitmap.get f = false) label s := by
  obtain ⟨root, pdp, label, hbooted, hident, hgrows⟩ := hb.initializePaging hi hout
  have hroots : s.roots = [root * 4096] := by rw [roots, PageManager.getKernelCR3, hp, hbooted.pml4]
  have hdiv : root * 4096 / 4096 = root := Nat.mul_div_cancel root (by decide)
  refine Inv.of_spaces ⟨hbooted.tables, hbooted.allocated, hbooted.allUser⟩ (fun r hr => ?_)
    (fun f hf => ?_) (fun f hf => ?_) fun r hr f hf _ => ?_
  · rw [hroots, List.mem_singleton] at hr
    rw [hr, hdiv]
    exact ⟨Nat.mul_mod_left root 4096, hbooted.rooted⟩
  · exact hgrows.used f (hheld f hf)
  · rcases hf with hfree | hl
    · by_contra hg
      rw [hgrows.used f (by simpa using hg)] at hfree
      cases hfree
    · exact hgrows.fresh f rfl hl
  · rw [hroots, List.mem_singleton] at hr
    rw [hr, hdiv]
    exact hbooted.lookup_identity hident hf

/-- A table has a label. -/
theorem Inv.label_ne (h : Inv pool label s) {f : Nat} (hf : s.IsTable f) : label f ≠ none := by
  obtain ⟨r, hr, page, hlt, k, hm⟩ := hf
  have hlab := h.spaces.tables.labelled.meets_place base_pos
    (by rw [place_three hlt]; exact (h.rooted r hr).2) hm
  simp [hlab]

/-- A page outside the pool can be mapped. -/
theorem Inv.outside (h : Inv pool label s) {f : Nat} (hf : ¬pool f) (hheld : f ∉ s.held) :
    s.pm.frames.bitmap.get f = true ∧ ¬s.KernelHolds f := by
  constructor
  · by_contra hg
    exact hf (h.inside f (Or.inl (by simpa using hg)))
  · rintro ⟨-, hh | ht⟩
    · exact hheld hh
    · exact hf (h.inside f (Or.inr (h.label_ne ht)))

/-- In every run whose calls map pages elsewhere, every root in use maps the frames that the
kernel holds to themselves. -/
theorem identity_map_kept {run : List (AddressSpaces × SpaceOp)} {s : AddressSpaces}
    (h : Runs run s) (hc : Transition.Throughout MapsElsewhere run) : s.IdentityMapped := by
  have hrun : Transition.Throughout (fun _ _ => True) run ∧ ∃ pool label, Inv pool label s := by
    refine h.throughout (I := fun _ s => ∃ pool label, Inv pool label s) ?_ ?_ hc
    · rintro s ⟨⟨pm, hb, hi, hheld⟩, hp, hout⟩
      exact ⟨_, Inv.start hb hi hout hp hheld⟩
    · rintro past s o ⟨pool, label, hi⟩ ho hm
      exact ⟨trivial, pool, step_inv hi ho hm⟩
  obtain ⟨-, pool, label, hinv⟩ := hrun
  intro cr3 hcr3 f hf hholds
  have hpage : pageOf (f * 4096) = f := by
    rw [identityPages] at hf
    rw [pageOf]
    omega
  rw [translate, translatePage, hpage]
  exact hinv.identity cr3 hcr3 f hf (Or.inr (hholds.2.imp_right hinv.label_ne))

/-- The small machine after `Initialize`; its 127 frames lie below 512 KB. -/
def smallSpaces : AddressSpaces := ⟨smallMachine.initializePaging.getD smallMachine, [], []⟩

private theorem smallSpaces_boots : smallMachine.initializePaging = some smallSpaces.pm ∧
    smallSpaces.pm.outOfFrames = false := by
  obtain ⟨pm, hpm, hout⟩ := (Option.any_eq_true _ _).mp smallMachine_boots
  have hs : smallSpaces.pm = pm := by rw [smallSpaces, hpm, Option.getD_some]
  rw [hs]
  exact ⟨hpm, (Bool.not_eq_true' _).mp hout⟩

private theorem smallSpaces_runs : Runs [] smallSpaces :=
  .start ⟨⟨smallMachine, smallMachine_bootable, smallSpaces_boots.1, nofun⟩, rfl,
    smallSpaces_boots.2⟩

/-- What a page at `0x1000` changes, and the root of the first process. -/
private theorem smallSpaces_eval :
    (0x1000 ∈ (smallSpaces.step (.allocateVirtual 0x1000 4096 7)).roots ∧
      (smallSpaces.step (.allocateVirtual 0x1000 4096 7)).pm.frames.bitmap.get 1 = true ∧
      translate (smallSpaces.step (.allocateVirtual 0x1000 4096 7)).pm.memory 0x1000 (1 * 4096) ≠
        .identity 1) ∧
    (smallSpaces.step .createProcessPageTable).processes = [0x43000] := by
  decide +kernel

/-- A segment at `0x1000` is mapped over the frame of the kernel's own root. -/
theorem identity_map_overlaid : ¬∀ run s, Runs run s → s.IdentityMapped := by
  intro h
  obtain ⟨hroot, hused, hchanged⟩ := smallSpaces_eval.1
  have hruns : Runs [(smallSpaces, .allocateVirtual 0x1000 4096 7)]
      (smallSpaces.step (.allocateVirtual 0x1000 4096 7)) :=
    .step _ smallSpaces_runs (show hasFlag 7 kUser = true by decide)
  exact hchanged (h _ _ hruns 0x1000 hroot 1 (by decide) ⟨hused, Or.inr (isTable_root hroot)⟩)

/-- The user stack of a process lies above all frames of the small machine. -/
private theorem stack_elsewhere (past : List (AddressSpaces × SpaceOp))
    (h : Inv (fun f => smallMachine.frames.bitmap.get f = false) label s) (hheld : s.held = [])
    (cr3 : Nat) :
    MapsElsewhere past (s, .allocateVirtualForProcess cr3 0x6FFF0000 0x10000 7) := by
  rintro page - ⟨-, j, hj, rfl⟩
  refine h.outside (fun hfree => ?_) (by simp [hheld])
  have hlt := Bitmap.lt_size_of_get hfree
  rw [show smallMachine.frames.bitmap.bitmapSize = 16 by decide, rangePage_eq, pageOf] at hlt
  rw [show PageManager.numPages 0x10000 = 16 by decide] at hj
  omega

/-- A process is created on the small machine and is given its user stack. -/
theorem identity_map_kept_small :
    (smallSpaces.step .createProcessPageTable).processes = [0x43000] ∧
    ((smallSpaces.step .createProcessPageTable).step
      (.allocateVirtualForProcess 0x43000 0x6FFF0000 0x10000 7)).IdentityMapped := by
  have hproc := smallSpaces_eval.2
  have hcreate : Runs [(smallSpaces, .createProcessPageTable)]
      (smallSpaces.step .createProcessPageTable) := .step _ smallSpaces_runs trivial
  have hstack : (smallSpaces.step .createProcessPageTable).Admissible
      (.allocateVirtualForProcess 0x43000 0x6FFF0000 0x10000 7) :=
    ⟨by rw [hproc]; exact List.mem_singleton_self _, by decide⟩
  obtain ⟨hboot, hout⟩ := smallSpaces_boots
  obtain ⟨label, hstart⟩ := Inv.start smallMachine_bootable hboot hout rfl nofun
  obtain ⟨label', hinv⟩ := step_inv hstart (o := .createProcessPageTable) trivial nofun
  exact ⟨hproc, identity_map_kept (.step _ hcreate hstack)
    ⟨stack_elsewhere _ hinv (held_create smallSpaces) 0x43000, nofun, trivial⟩⟩

end AddressSpaces

end Sylphia
