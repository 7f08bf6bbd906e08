import Sylphia.Paging.Release
import Sylphia.Paging.Roots

/-!
# The page tables in every run

The states of the page tables that the calls of `PageManager` reach after `Initialize`, with any
flags, under the kernel's root and under those of processes, while the rest of the kernel takes
and frees frames and writes to its memory.
-/

namespace Sylphia

open RadixTree PageTableEntry

/-- Between two calls the tables under the roots that stay in use are left alone. Any other frame
may be taken, freed or written, and roots of processes may be dropped. -/
structure Meanwhile (pm : PageManager) (roots : List Nat) (pm' : PageManager)
    (roots' : List Nat) : Prop where
  pml4 : pm'.pml4Table = pm.pml4Table
  kernel : pm.pml4Table ∈ roots'
  roots : ∀ cr3 ∈ roots', cr3 ∈ roots
  tables : ∀ cr3 ∈ roots', ∀ n t, TableAt pm.memory (cr3 / 4096) n t →
    pm'.frames.bitmap.get t = true ∧ pm'.memory t = pm.memory t
  free : ∀ f, pm'.frames.bitmap.get f = false → 0 < f ∧ f < 2 ^ 40

/-- The states that are reached from `Initialize`, which has found frames for all its tables, with
the roots in use. -/
inductive TablesReached : PageManager → List Nat → Prop
  | start {pm pm' : PageManager} : Bootable pm → pm.initializePaging = some pm' →
      pm'.outOfFrames = false → TablesReached pm' [pm'.getKernelCR3]
  | mapPage {pm : PageManager} {roots : List Nat} (v p count flags : Nat) :
      TablesReached pm roots → TablesReached (pm.mapPage v p count flags) roots
  | allocateVirtual {pm : PageManager} {roots : List Nat} (v size flags : Nat) :
      TablesReached pm roots → TablesReached (pm.allocateVirtual v size flags).2 roots
  | createProcessPageTable {pm : PageManager} {roots : List Nat} : TablesReached pm roots →
      TablesReached pm.createProcessPageTable.2
        (if pm.createProcessPageTable.1 = 0 then roots else pm.createProcessPageTable.1 :: roots)
  | allocateVirtualForProcess {pm : PageManager} {roots : List Nat} (cr3 v size flags : Nat) :
      TablesReached pm roots → cr3 ∈ roots →
      TablesReached (pm.allocateVirtualForProcess cr3 v size flags).2 roots
  | meanwhile {pm pm' : PageManager} {roots roots' : List Nat} : TablesReached pm roots →
      Meanwhile pm roots pm' roots' → TablesReached pm' roots'

/-- The roots in use, the kernel's among them, are labelled. -/
structure Rooted (label : Labelling) (pm : PageManager) (roots : List Nat) : Prop where
  shaped : Shaped label pm
  kernel : pm.pml4Table ∈ roots
  roots : ∀ cr3 ∈ roots, cr3 = cr3 / 4096 * 4096 ∧ label (cr3 / 4096) = some (3, 0)

section Loops

variable {label : Labelling} {pm : PageManager} {root : Nat}

/-- The loop of `MapPage`. -/
theorem Shaped.mapLoop (h : Shaped label pm) (hroot : label root = some (3, 0))
    (hpml4 : pm.pml4Table = root * 4096) (v p flags n i : Nat) :
    ∃ label', Proceeds (fun _ => True) label pm label' (pm.mapLoop v p flags n i) := by
  induction n generalizing i pm label with
  | zero => exact ⟨label, Proceeds.refl _ h⟩
  | succ n ih =>
    have hone : MapsOrStalls root (pageOf ((v + i * kPageSize4K) % 2 ^ 64))
        ((p + i * kPageSize4K) % 2 ^ 64) flags label pm
        (pm.mapOne ((v + i * kPageSize4K) % 2 ^ 64) ((p + i * kPageSize4K) % 2 ^ 64) flags) :=
      h.mapOne hroot hpml4
    rw [PageManager.mapLoop]
    dsimp only
    rcases hone with ⟨label₁, pm₁, he, hmaps⟩ | ⟨label₁, pm₁, he, hstall⟩
    · obtain ⟨label', hrest⟩ := ih hmaps.proceeds.shaped (hmaps.proceeds.labels root _ hroot)
        (hmaps.proceeds.pml4.trans hpml4) (i + 1)
      rw [he]
      exact ⟨label', (hmaps.proceeds.mono fun _ _ => trivial).trans hrest⟩
    · rw [he]
      exact ⟨label₁, hstall.proceeds.mono fun _ _ => trivial⟩

theorem Shaped.mapPage (h : Shaped label pm) (hroot : label root = some (3, 0))
    (hpml4 : pm.pml4Table = root * 4096) (v p count flags : Nat) :
    ∃ label', Proceeds (fun _ => True) label pm label' (pm.mapPage v p count flags) := by
  rw [PageManager.mapPage]
  split
  · exact ⟨label, Proceeds.refl _ h⟩
  · exact h.mapLoop hroot hpml4 v p flags count 0

/-- The loop of `AllocateVirtual`. -/
theorem Shaped.allocateLoop (h : Shaped label pm) (hroot : label root = some (3, 0))
    (hpml4 : pm.pml4Table = root * 4096) (v flags n i : Nat) :
    ∃ label', Proceeds (fun _ => True) label pm label' (pm.allocateLoop v flags n i).2 := by
  induction n generalizing i pm label with
  | zero => exact ⟨label, Proceeds.refl _ h⟩
  | succ n ih =>
    rcases h.allocateOne hroot hpml4 v flags n i with
      ⟨-, he⟩ | ⟨label₁, pm₁, he, hone⟩
    · rw [he]
      exact ⟨label, (Proceeds.refl _ h).record true⟩
    · have hadv : Proceeds (· = rangePage v i) label pm label₁ pm₁ := by
        rcases hone with ⟨f, hone⟩ | hone <;> exact hone.proceeds
      obtain ⟨label', hrest⟩ := ih hadv.shaped (hadv.labels root _ hroot)
        (hadv.pml4.trans hpml4) (i + 1)
      rw [he]
      exact ⟨label', (hadv.mono fun _ _ => trivial).trans hrest⟩

theorem Shaped.allocateVirtual (h : Shaped label pm) (hroot : label root = some (3, 0))
    (hpml4 : pm.pml4Table = root * 4096) (v size flags : Nat) :
    ∃ label', Proceeds (fun _ => True) label pm label' (pm.allocateVirtual v size flags).2 := by
  rw [PageManager.allocateVirtual]
  split
  · exact ⟨label, Proceeds.refl _ h⟩
  · exact h.allocateLoop hroot hpml4 v flags (PageManager.numPages size) 0

end Loops

namespace Rooted

variable {label : Labelling} {pm pm' : PageManager} {roots roots' : List Nat}

theorem pml4 (h : Rooted label pm roots) : pm.pml4Table = pm.pml4Table / 4096 * 4096 :=
  (h.roots _ h.kernel).1

theorem root (h : Rooted label pm roots) : label (pm.pml4Table / 4096) = some (3, 0) :=
  (h.roots _ h.kernel).2

theorem proceeds (h : Rooted label pm roots) {pages : Nat → Prop} {label' : Labelling}
    (ha : Proceeds pages label pm label' pm') : Rooted label' pm' roots where
  shaped := ha.shaped
  kernel := ha.pml4 ▸ h.kernel
  roots := fun cr3 hcr3 => ⟨(h.roots cr3 hcr3).1, ha.labels _ _ (h.roots cr3 hcr3).2⟩

theorem meanwhile (h : Rooted label pm roots) (hm : Meanwhile pm roots pm' roots') :
    Rooted (restrict label fun t => ∃ cr3 ∈ roots', ∃ n, TableAt pm.memory (cr3 / 4096) n t) pm'
      roots' where
  shaped := by
    refine h.shaped.restrict ?_ ?_ ?_ hm.free
    · rintro t n lead i ⟨cr3, hcr3, k, hk⟩ hlab hi hs
      obtain ⟨lead', hlead'⟩ := hk.labelled h.shaped.labelled (h.roots cr3 (hm.roots cr3 hcr3)).2
      rw [hlab, Option.some.injEq, Prod.mk.injEq] at hlead'
      obtain ⟨rfl, -⟩ := hlead'
      exact ⟨cr3, hcr3, n, hk.child hi hs⟩
    · rintro t ⟨cr3, hcr3, k, hk⟩
      exact (hm.tables cr3 hcr3 k t hk).2
    · rintro t ⟨cr3, hcr3, k, hk⟩
      exact (hm.tables cr3 hcr3 k t hk).1
  kernel := hm.pml4 ▸ hm.kernel
  roots := fun cr3 hcr3 => by
    obtain ⟨haligned, hlab⟩ := h.roots cr3 (hm.roots cr3 hcr3)
    exact ⟨haligned, restrict_eq_some.mpr ⟨⟨cr3, hcr3, 3, .root⟩, hlab⟩⟩

theorem createProcessPageTable (h : Rooted label pm roots) :
    ∃ label', Rooted label' pm.createProcessPageTable.2
      (if pm.createProcessPageTable.1 = 0 then roots
        else pm.createProcessPageTable.1 :: roots) := by
  rcases h.shaped.createProcessPageTable h.root h.pml4 with
    he | ⟨a, label', pm', he, ha, hcopy⟩
  · rw [he, if_pos rfl]
    exact ⟨label, h.proceeds ((Proceeds.refl (fun _ => False) h.shaped).record true)⟩
  · rw [he, if_neg (by dsimp only; omega)]
    refine ⟨label', hcopy.copies.shaped, ?_, fun cr3 hcr3 => ?_⟩
    · exact List.mem_cons_of_mem _ (hcopy.copies.pml4 ▸ h.kernel)
    · rcases List.mem_cons.mp hcr3 with rfl | hold
      · dsimp only
        rw [Nat.mul_div_cancel a (by decide)]
        exact ⟨rfl, hcopy.rooted⟩
      · exact ⟨(h.roots cr3 hold).1, hcopy.copies.keeps.labels _ _ (h.roots cr3 hold).2⟩

theorem allocateVirtualForProcess (h : Rooted label pm roots) {cr3 : Nat} (hcr3 : cr3 ∈ roots)
    (v size flags : Nat) :
    ∃ label', Rooted label' (pm.allocateVirtualForProcess cr3 v size flags).2 roots := by
  obtain ⟨y, z, he⟩ := PageManager.allocateVirtualForProcess_eq pm cr3 v size flags
  have hs := h.shaped
  obtain ⟨label', ha⟩ := @Shaped.allocateVirtual label { pm with pml4Table := cr3, cr3 := y }
    (cr3 / 4096) ⟨hs.allocated, hs.labelled, hs.clear, hs.writable⟩ (h.roots cr3 hcr3).2
    (h.roots cr3 hcr3).1 v size flags
  rw [he]
  refine ⟨label', ⟨ha.shaped.allocated, ha.shaped.labelled, ha.shaped.clear, ha.shaped.writable⟩,
    h.kernel, fun x hx => ⟨(h.roots x hx).1, ha.labels _ _ (h.roots x hx).2⟩⟩

end Rooted

/-- In every state that is reached the tables under the roots in use are well formed. -/
theorem TablesReached.rooted {pm : PageManager} {roots : List Nat} (h : TablesReached pm roots) :
    ∃ label, Rooted label pm roots := by
  induction h with
  | start hb hi hout =>
    obtain ⟨root, pdp, label, hbooted, -, -⟩ := hb.initializePaging hi hout
    refine ⟨label, ⟨hbooted.allocated, hbooted.tables.labelled, hbooted.tables.clear,
      hbooted.tables.writable⟩, List.mem_singleton_self _, fun cr3 hcr3 => ?_⟩
    rw [List.mem_singleton.mp hcr3, PageManager.getKernelCR3, hbooted.pml4,
      Nat.mul_div_cancel root (by decide)]
    exact ⟨rfl, hbooted.rooted⟩
  | mapPage v p count flags _ ih =>
    obtain ⟨label, hr⟩ := ih
    obtain ⟨label', ha⟩ := hr.shaped.mapPage hr.root hr.pml4 v p count flags
    exact ⟨label', hr.proceeds ha⟩
  | allocateVirtual v size flags _ ih =>
    obtain ⟨label, hr⟩ := ih
    obtain ⟨label', ha⟩ := hr.shaped.allocateVirtual hr.root hr.pml4 v size flags
    exact ⟨label', hr.proceeds ha⟩
  | createProcessPageTable _ ih =>
    obtain ⟨label, hr⟩ := ih
    exact hr.createProcessPageTable
  | allocateVirtualForProcess cr3 v size flags _ hcr3 ih =>
    obtain ⟨label, hr⟩ := ih
    exact hr.allocateVirtualForProcess hcr3 v size flags
  | meanwhile _ hm ih =>
    obtain ⟨label, hr⟩ := ih
    exact ⟨_, hr.meanwhile hm⟩

/-- The root translates like the kernel's. Each table under it is the kernel's own, or it was taken
by the call and is not under the kernel's root; and the kernel's tables are as they were. -/
structure MirrorsKernel (pm : PageManager) (cr3 : Nat) (pm' : PageManager) : Prop where
  translates : ∀ v, translate pm'.memory cr3 v = translate pm'.memory pm'.getKernelCR3 v
  tables : ∀ n t, TableAt pm'.memory (cr3 / 4096) n t →
    TableAt pm'.memory (pm'.getKernelCR3 / 4096) n t ∨
      pm.frames.bitmap.get t = false ∧ pm'.frames.bitmap.get t = true ∧
        ∀ m, ¬TableAt pm'.memory (pm'.getKernelCR3 / 4096) m t
  root : pm'.getKernelCR3 = pm.getKernelCR3
  kernel : ∀ n t, TableAt pm.memory (pm.getKernelCR3 / 4096) n t → pm'.memory t = pm.memory t

theorem Rooted.used {label : Labelling} {pm : PageManager} {roots : List Nat}
    (h : Rooted label pm roots) {cr3 n t : Nat} (hcr3 : cr3 ∈ roots)
    (ht : TableAt pm.memory (cr3 / 4096) n t) : pm.frames.bitmap.get t = true := by
  obtain ⟨lead, hlead⟩ := ht.labelled h.shaped.labelled (h.roots cr3 hcr3).2
  exact h.shaped.allocated.used t (by simp [hlead])

/-- The labels can be kept of the kernel's tables only. -/
theorem Rooted.kernelOnly {label : Labelling} {pm : PageManager} {roots : List Nat}
    (h : Rooted label pm roots) : ∃ label', Rooted label' pm [pm.pml4Table] ∧
      ∀ t, label' t ≠ none → ∃ n, TableAt pm.memory (pm.pml4Table / 4096) n t := by
  have hsame : Meanwhile pm roots pm [pm.pml4Table] := by
    refine ⟨rfl, List.mem_singleton_self _, fun cr3 hcr3 => ?_, fun cr3 hcr3 n t ht => ⟨?_, rfl⟩,
      h.shaped.allocated.free⟩
    all_goals rw [List.mem_singleton] at hcr3
    · exact hcr3 ▸ h.kernel
    · exact h.used h.kernel (hcr3 ▸ ht)
  refine ⟨_, h.meanwhile hsame, fun t ht => ?_⟩
  obtain ⟨x, hx⟩ := Option.ne_none_iff_exists'.mp ht
  obtain ⟨⟨cr3, hcr3, hn⟩, -⟩ := restrict_eq_some.mp hx
  rwa [List.mem_singleton.mp hcr3] at hn

/-- The new root has the tables that the kernel's root has. -/
theorem Rooted.meets_createProcessPageTable {label : Labelling} {pm pm' : PageManager}
    {roots : List Nat} {a page : Nat} (h : Rooted label pm roots)
    (he : pm.createProcessPageTable = (a * 4096, pm')) (ha : a ≠ 0) (hpage : page < 2 ^ 36)
    {k : Nat}
    (hk : k < 3) : (pageFormat.meets pm'.memory k 3 a page).isSome =
      (pageFormat.meets pm.memory k 3 (pm.pml4Table / 4096) page).isSome := by
  obtain ⟨label₁, hkernel, hof⟩ := h.kernelOnly
  have hl := hkernel.shaped.labelled
  rcases hkernel.shaped.createProcessPageTable hkernel.root hkernel.pml4 with
    he' | ⟨b, label', pm'', he', -, hcopy⟩
  · have hzero := congrArg Prod.fst (he.symm.trans he')
    dsimp only at hzero
    omega
  obtain ⟨hab, rfl⟩ := Prod.mk.inj (he.symm.trans he')
  obtain rfl : a = b := by omega
  have hplace := (place_three hpage).symm
  refine Format.meets_of_alike hl hcopy.copies.shaped.labelled base_pos
    (hkernel.root.trans (congrArg some hplace)) (hcopy.rooted.trans (congrArg some hplace))
    (fun m t t' hm _ ht' => ?_) hk.le
  obtain ⟨s, hs, halike⟩ := hcopy.copies.alike t' m _ _ ht' (index_lt_base (m + 1) page)
  -- The kernel has one table at a place.
  obtain ⟨n, hn⟩ := hof s (by simp [hs])
  obtain ⟨lead, hlead⟩ := hn.labelled hl hkernel.root
  obtain ⟨rfl, -⟩ := Prod.mk.inj (Option.some.inj (hs.symm.trans hlead))
  obtain rfl := Option.some.inj (hm.symm.trans (hn.meets hl hkernel.root hs))
  exact halike.stops_eq

theorem Rooted.tablesUsed {label : Labelling} {pm : PageManager} {roots : List Nat}
    (h : Rooted label pm roots) : TablesUsed pm where
  aligned := h.pml4
  used := fun _ _ ht => h.used h.kernel ht
  free := fun f hf => h.shaped.allocated.free f (Bitmap.mem_freeSet.mp hf)

/-- In every state that is reached, however many of its copies find frames, a root that
`CreateProcessPageTable` returns translates as the kernel's does, by tables of its own or by the
kernel's. -/
theorem createProcessPageTable_mirrorsKernel {pm : PageManager} {roots : List Nat}
    (h : TablesReached pm roots) (hroot : pm.createProcessPageTable.1 ≠ 0) :
    MirrorsKernel pm pm.createProcessPageTable.1 pm.createProcessPageTable.2 := by
  obtain ⟨label₀, hall⟩ := h.rooted
  obtain ⟨label, hkernel, hof⟩ := hall.kernelOnly
  have hpml4 := hkernel.pml4
  rcases hall.tablesUsed.createProcessPageTable with ⟨-, he⟩ | ⟨r, taken, pm', he, hcreates⟩
  · rw [he] at hroot
    exact absurd rfl hroot
  rcases hkernel.shaped.createProcessPageTable hkernel.root hpml4 with
    he' | ⟨a, label', pm'', he', -, hcopy⟩
  · rw [he'] at hroot
    exact absurd rfl hroot
  rw [he, Prod.mk.injEq] at he'
  obtain ⟨hra, rfl⟩ := he'
  obtain rfl : r = a := by omega
  rw [he]
  dsimp only
  have hdiv : r * 4096 / 4096 = r := Nat.mul_div_cancel r (by decide)
  -- The tables of the kernel were in use, so none of them was taken.
  have hold {n t : Nat} (ht : TableAt pm.memory (pm.pml4Table / 4096) n t) :
      pm'.memory t = pm.memory t := by
    refine hcreates.gains.memory t fun hc => ?_
    exact Bitmap.get_eq_true_iff.mp (hkernel.used hkernel.kernel ht) (hcreates.gains.takes.free hc)
  have hback {n t : Nat} (ht : TableAt pm'.memory (pm.pml4Table / 4096) n t) :
      TableAt pm.memory (pm.pml4Table / 4096) n t := ht.congr fun _ _ => hold
  have hsame := hcopy.copies.pml4
  refine ⟨fun v => ?_, fun n t ht => ?_, hsame, fun n t => hold⟩
  · have hpage : pageOf v < 2 ^ 36 := Nat.mod_lt _ (by decide)
    rw [translate, translate, translatePage, translatePage, PageManager.getKernelCR3, hsame, hdiv,
      hcopy.translates _ hpage, hcopy.copies.keeps.lookups 3 _ _
        (by rw [place_three hpage]; exact hkernel.root)]
  · rw [hdiv] at ht
    rw [PageManager.getKernelCR3, hsame]
    obtain ⟨lead, hlead⟩ := ht.labelled hcopy.copies.shaped.labelled hcopy.rooted
    cases hlab : label t with
    | none =>
      have hfree := hcopy.copies.grows.fresh t hlab (by simp [hlead])
      refine Or.inr ⟨hfree, hcopy.copies.shaped.allocated.used t (by simp [hlead]), fun m hm => ?_⟩
      rw [hkernel.used hkernel.kernel (hback hm)] at hfree
      cases hfree
    | some x =>
      obtain ⟨m, hm⟩ := hof t (by simp [hlab])
      obtain ⟨lead', hlead'⟩ := hm.labelled hkernel.shaped.labelled hkernel.root
      have hlevel := (hcopy.copies.keeps.labels t _ hlead').symm.trans hlead
      obtain ⟨rfl, -⟩ := Prod.mk.inj (Option.some.inj hlevel)
      exact Or.inl (hm.congr fun _ _ hk => (hold (hback hk)).symm)

/-- The small machine makes a root for a first process. -/
theorem createProcessPageTable_mirrorsKernel_small : ∃ pm, TablesReached pm [pm.getKernelCR3] ∧
    MirrorsKernel pm pm.createProcessPageTable.1 pm.createProcessPageTable.2 := by
  have hrun : (smallMachine.initializePaging.any fun pm =>
      !pm.outOfFrames && pm.createProcessPageTable.1 != 0) = true := by decide +kernel
  obtain ⟨pm, hpm, hboth⟩ := (Option.any_eq_true _ _).mp hrun
  obtain ⟨hout, hne⟩ := (Bool.and_eq_true _ _).mp hboth
  have hreached := TablesReached.start smallMachine_bootable hpm ((Bool.not_eq_true' _).mp hout)
  exact ⟨pm, hreached, createProcessPageTable_mirrorsKernel hreached (by simpa using hne)⟩

end Sylphia
