import Sylphia.Paging.Isolation
import Sylphia.Paging.Release

/-!
# The tables and the user stack of an app

`CreateProcessPageTable` followed by `AllocateVirtualForProcess`, seen from the kernel's
tables: which frames are taken, and what is left as it was.
-/

namespace Sylphia

open RadixTree PageTableEntry

namespace PageManager

variable {pm pm₁ pm' : PageManager}

/-- Some frames go from free to used, and at least `n` of them. -/
def TakesSome (pm : PageManager) (n : Nat) (pm' : PageManager) : Prop :=
  ∃ s, pm.frames.Takes s pm'.frames ∧ n ≤ s.card

theorem TakesSome.trans {m n : Nat} (h : TakesSome pm m pm₁) (h' : TakesSome pm₁ n pm') :
    TakesSome pm (m + n) pm' := by
  obtain ⟨s, hs, hm⟩ := h
  obtain ⟨t, ht, hn⟩ := h'
  refine ⟨s ∪ t, hs.trans ht, ?_⟩
  rw [Finset.card_union_of_disjoint (hs.disjoint ht)]
  omega

theorem TakesSome.of_eq (h : pm'.frames = pm.frames) : TakesSome pm 0 pm' :=
  ⟨∅, h ▸ MemoryManager.Takes.refl _, Nat.zero_le _⟩

theorem allocateFrame_takesSome (pm : PageManager) :
    TakesSome pm 0 pm.allocateFrame.2 ∧
      (pm.allocateFrame.1 ≠ 0 → TakesSome pm 1 pm.allocateFrame.2) := by
  rw [allocateFrame]
  rcases pm.frames.allocateFrame_takes with ⟨-, he⟩ | ⟨f, m', htake, he⟩
  · rw [he]
    exact ⟨.of_eq rfl, fun hne => absurd rfl hne⟩
  · rw [he]
    exact ⟨⟨{f}, htake, Nat.zero_le _⟩,
      fun _ => ⟨{f}, htake, le_of_eq (Finset.card_singleton f).symm⟩⟩

theorem allocateTable_takesSome (pm : PageManager) : TakesSome pm 0 pm.allocateTable.2 := by
  have h := pm.allocateFrame_takesSome.1
  rw [allocateTable]
  dsimp only
  split
  · exact h
  · exact h.trans (.of_eq rfl)

theorem setEntry_frames (pm : PageManager) (table index : Nat) (e : PageTableEntry) :
    (pm.setEntry table index e).frames = pm.frames := rfl

theorem fillTable_frames (pm : PageManager) (table n : Nat)
    (f : Nat → PageTableEntry → PageTableEntry) : (pm.fillTable table f n).frames = pm.frames := by
  induction n with
  | zero => rfl
  | succ n ih => exact ih

theorem ensureEntry_takesSome (pm : PageManager) (table index : Nat) (user : Bool) :
    TakesSome pm 0 (pm.ensureEntry table index user).2 := by
  have h := pm.allocateTable_takesSome
  rw [ensureEntry]
  dsimp only
  split
  · exact .of_eq rfl
  · split
    · exact h
    · exact h.trans (.of_eq rfl)

theorem splitHugePage_takesSome (pm : PageManager) (table index : Nat) (user : Bool) :
    TakesSome pm 0 (pm.splitHugePage table index user).2 := by
  have h := pm.allocateTable_takesSome
  rw [splitHugePage]
  dsimp only
  split
  · exact h
  · refine h.trans (.of_eq ?_)
    rw [setEntry_frames, fillTable_frames]

theorem mapInDirectory_takesSome (pm : PageManager) (table v p flags : Nat) :
    TakesSome pm 0 (pm.mapInDirectory table v p flags).2 := by
  have hin (pm : PageManager) : TakesSome pm 0 (pm.mapInTable table v p flags).2 := by
    rw [mapInTable]
    dsimp only
    split
    · exact pm.ensureEntry_takesSome _ _ _
    · exact (pm.ensureEntry_takesSome _ _ _).trans (.of_eq rfl)
  rw [mapInDirectory]
  dsimp only
  split
  · split
    · exact pm.splitHugePage_takesSome _ _ _
    · exact (pm.splitHugePage_takesSome _ _ _).trans (hin _)
  · split
    · exact .of_eq rfl
    · exact hin pm

theorem mapOne_takesSome (pm : PageManager) (v p flags : Nat) :
    TakesSome pm 0 (pm.mapOne v p flags).2 := by
  rw [mapOne]
  dsimp only
  split
  · exact pm.ensureEntry_takesSome _ _ _
  · split
    · exact (pm.ensureEntry_takesSome _ _ _).trans (ensureEntry_takesSome _ _ _ _)
    · exact ((pm.ensureEntry_takesSome _ _ _).trans (ensureEntry_takesSome _ _ _ _)).trans
        (mapInDirectory_takesSome _ _ _ _ _)

theorem mapPage_takesSome (pm : PageManager) (v p count flags : Nat) :
    TakesSome pm 0 (pm.mapPage v p count flags) := by
  have hloop (n i : Nat) (pm : PageManager) : TakesSome pm 0 (pm.mapLoop v p flags n i) := by
    induction n generalizing pm i with
    | zero => exact .of_eq rfl
    | succ n ih =>
      rw [mapLoop]
      dsimp only
      split
      · exact (pm.mapOne_takesSome _ _ _).trans (ih (i + 1) _)
      · exact pm.mapOne_takesSome _ _ _
  rw [mapPage]
  split
  · exact .of_eq rfl
  · exact hloop count 0 pm

/-- The loop of `AllocateVirtual` takes a frame for every page it goes through. -/
theorem allocateLoop_takesSome (pm : PageManager) (v flags n i : Nat) :
    TakesSome pm 0 (pm.allocateLoop v flags n i).2 ∧
      ((pm.allocateLoop v flags n i).1 = true →
        TakesSome pm n (pm.allocateLoop v flags n i).2) := by
  induction n generalizing pm i with
  | zero => exact ⟨.of_eq rfl, fun _ => .of_eq rfl⟩
  | succ n ih =>
    obtain ⟨hframe, hone⟩ := pm.allocateFrame_takesSome
    rw [allocateLoop]
    dsimp only
    split
    · exact ⟨hframe, fun hc => by cases hc⟩
    · next hne =>
      have hclear : TakesSome pm.allocateFrame.2 0
          (pm.allocateFrame.2.clearFrame pm.allocateFrame.1) := .of_eq rfl
      have hmap := hclear.trans
        (mapPage_takesSome _ ((v + i * kPageSize4K) % 2 ^ 64) pm.allocateFrame.1 1 flags)
      obtain ⟨hsome, hall⟩ := ih ((pm.allocateFrame.2.clearFrame pm.allocateFrame.1).mapPage
        ((v + i * kPageSize4K) % 2 ^ 64) pm.allocateFrame.1 1 flags) (i + 1)
      refine ⟨(hframe.trans hmap).trans hsome, fun hok => ?_⟩
      have htakes := ((hone hne).trans hmap).trans (hall hok)
      rwa [show 1 + (0 + 0) + n = n + 1 by omega] at htakes

end PageManager

/-- The table is on no way of the root in the windows, above the last level. -/
def OffWindows (memory : Nat → Nat → PageTableEntry) (root t : Nat) : Prop :=
  ∀ k page, 1 ≤ k → page < windowPages → pageFormat.meets memory k 3 root page ≠ some t

/-- Pages of the windows have been mapped under one root. -/
structure MapsUnder (cr3 : Nat) (roots : List Nat) (label : Labelling) (pm : PageManager)
    (label' : Labelling) (pm' : PageManager) : Prop where
  separate : Separate label' pm' roots
  labels : ∀ t x, label t = some x → label' t = some x
  grows : Grows label pm.frames label' pm'.frames
  links : pageFormat.Extends label pm.memory pm'.memory
  /-- Only page tables and the tables on the ways of the root are written. -/
  keeps : ∀ t, pm.frames.bitmap.get t = true → (∀ lead, label t ≠ some (0, lead)) →
    OffWindows pm.memory (cr3 / 4096) t → pm'.memory t = pm.memory t
  pml4 : pm'.pml4Table = pm.pml4Table

namespace MapsUnder

variable {label label₁ label' : Labelling} {pm pm₁ pm' : PageManager} {roots : List Nat}
  {cr3 : Nat}

theorem refl (h : Separate label pm roots) : MapsUnder cr3 roots label pm label pm :=
  ⟨h, fun _ _ hx => hx, Grows.refl _ _, fun _ _ _ _ _ _ hs => ⟨hs, rfl⟩, fun _ _ _ _ => rfl, rfl⟩

/-- The tables above the last level in the windows stay those they are. -/
theorem offWindows (h : Separate label pm roots) (hm : MapsUnder cr3 roots label pm label₁ pm₁)
    (hcr3 : cr3 ∈ roots) {t : Nat} (ht : OffWindows pm.memory (cr3 / 4096) t) :
    OffWindows pm₁.memory (cr3 / 4096) t := by
  intro k page hk hpage hmeets
  have hk3 : k ≤ 3 := Format.le_of_meets hmeets
  obtain ⟨s, hs⟩ := h.meets hcr3 hpage hk hk3
  have hs' := hm.links.meets h.layout.tables.labelled base_pos
    (h.root_place hcr3 (lt_trans hpage (by decide))) hs
  rw [hs', Option.some.injEq] at hmeets
  exact ht k page hk hpage (hmeets ▸ hs)

/-- A used frame that is no page table does not become one. -/
theorem label_ne (hg : Grows label pm.frames label₁ pm₁.frames)
    (hl : ∀ t x, label t = some x → label₁ t = some x) {t : Nat}
    (hused : pm.frames.bitmap.get t = true) (ht : ∀ lead, label t ≠ some (0, lead)) (lead : Nat) :
    label₁ t ≠ some (0, lead) := by
  intro hc
  cases hx : label t with
  | none =>
    have hfree := hg.fresh t hx (by simp [hc])
    rw [hused] at hfree
    cases hfree
  | some x =>
    rw [hl t x hx, Option.some.injEq] at hc
    exact ht lead (hx.trans (congrArg some hc))

theorem trans (h : Separate label pm roots) (hcr3 : cr3 ∈ roots)
    (h₁ : MapsUnder cr3 roots label pm label₁ pm₁)
    (h₂ : MapsUnder cr3 roots label₁ pm₁ label' pm') : MapsUnder cr3 roots label pm label' pm' where
  separate := h₂.separate
  labels := fun t x hx => h₂.labels t x (h₁.labels t x hx)
  grows := h₁.grows.trans h₂.grows
  links := h₁.links.trans h₂.links h₁.labels
  keeps := fun t hused hlab hoff => by
    rw [h₂.keeps t (h₁.grows.used t hused) (label_ne h₁.grows h₁.labels hused hlab)
      (offWindows h h₁ hcr3 hoff), h₁.keeps t hused hlab hoff]
  pml4 := h₂.pml4.trans h₁.pml4

/-- One page. -/
theorem mapsPage (h : Separate label pm roots) (hcr3 : cr3 ∈ roots) {page paddr flags c : Nat}
    (hpage : page < windowPages)
    (hmaps : Sound.MapsPage Windows (cr3 / 4096) page paddr flags label pm label₁ pm₁ c) :
    MapsUnder cr3 roots label pm label₁ pm₁ where
  separate := h.extend ⟨hmaps.sound.tables, hmaps.sound.allocated, hmaps.sound.kept⟩ hmaps.labels
    hmaps.along.links
  labels := hmaps.labels
  grows := hmaps.grows
  links := hmaps.along.links
  keeps := fun t hused hlab hoff => by
    refine hmaps.along.off t hused fun k hm => ?_
    have hlab₁ := hmaps.sound.tables.labelled.meets_place base_pos
      (hmaps.sound.root_place (lt_trans hpage (by decide))) hm
    rcases Nat.eq_zero_or_pos k with rfl | hk
    · exact label_ne hmaps.grows hmaps.labels hused hlab _ hlab₁
    · have hk3 : k ≤ 3 := Format.le_of_meets hm
      obtain ⟨s, hs⟩ := h.meets hcr3 hpage hk hk3
      have hs' := hmaps.along.links.meets h.layout.tables.labelled base_pos
        (h.root_place hcr3 (lt_trans hpage (by decide))) hs
      rw [hs', Option.some.injEq] at hm
      exact hoff k page hk hpage (hm ▸ hs)
  pml4 := hmaps.pml4

/-- The loop of `AllocateVirtual` under one of the roots, when frames do not run out. -/
theorem allocateLoop {v flags : Nat} (n i : Nat) (h : Separate label pm roots)
    (hcr3 : cr3 ∈ roots) (hpml4 : pm.pml4Table = cr3)
    (hpages : ∀ j, i ≤ j → j < i + n → rangePage v j < windowPages)
    (hout : (pm.allocateLoop v flags n i).2.outOfFrames = false) :
    ∃ label', MapsUnder cr3 roots label pm label' (pm.allocateLoop v flags n i).2 := by
  induction n generalizing i pm label with
  | zero => exact ⟨label, refl h⟩
  | succ n ih =>
    have hpage := hpages i le_rfl (by omega)
    have hmul : cr3 / 4096 * 4096 = cr3 := by
      have := (h.rooted cr3 hcr3).1
      omega
    obtain ⟨f, label₁, pm₁, c, -, -, -, hmaps, he⟩ := (h.sound hcr3).allocateOne
      (windows_discipline _ hpage _) (hpml4.trans hmul.symm) hout
    rw [he] at hout ⊢
    have hone := mapsPage h hcr3 hpage hmaps
    obtain ⟨label', hrest⟩ := ih (i + 1) hone.separate (hmaps.pml4.trans hpml4)
      (fun j hj hjn => hpages j (by omega) (by omega)) hout
    exact ⟨label', trans h hcr3 hone hrest⟩

end MapsUnder

/-! ## Back to the kernel's tables -/

/-- Where the tables above the last level stay, and no frame in use is freed, a labelling
stays one. -/
theorem Layout.congr {label : Labelling} {pm pm' : PageManager} (h : Layout label pm)
    (hsame : ∀ t n lead, label t = some (n + 1, lead) → pm'.memory t = pm.memory t)
    (hused : ∀ t, label t ≠ none → pm'.frames.bitmap.get t = true)
    (hfree : pm'.FreeNamed) : Layout label pm' where
  tables := by
    refine ⟨?_, ?_, ?_, ?_, ?_⟩ <;> intro t n lead i ht hi <;> rw [hsame t n lead ht]
    · exact h.tables.labelled t n lead i ht hi
    · exact h.tables.clear t n lead i ht hi
    · exact h.tables.writable t n lead i ht hi
    · exact h.tables.huge t n lead i ht hi
    · -- In these layouts every link is open to user mode.
      intro hs j hj _
      exact h.windows.allUser t n lead i ht hi (stops_eq_false.mp hs).1
  allocated := ⟨h.allocated.null, hused, fun t ht => hfree t (Bitmap.mem_freeSet.mpr ht)⟩
  windows := by
    refine ⟨fun t n lead i ht hi hp => ?_, fun t m page hpage ht => ?_⟩
    · rw [hsame t n lead ht] at hp ⊢
      exact h.windows.allUser t n lead i ht hi hp
    · rw [hsame t m _ ht]
      exact h.windows.full t m page hpage ht

/-- The labelled tables are those of the kernel, and the windows are complete. -/
structure KernelLayout (label : Labelling) (pm : PageManager) : Prop where
  layout : Layout label pm
  aligned : pm.pml4Table % 4096 = 0
  rooted : label (pm.pml4Table / 4096) = some (3, 0)

namespace KernelLayout

variable {label : Labelling} {pm pm₁ pm' : PageManager} {t n lead i : Nat}

theorem separate (h : KernelLayout label pm) : Separate label pm [pm.pml4Table] where
  layout := h.layout
  rooted := fun r hr => by
    rw [List.mem_singleton] at hr
    subst hr
    exact ⟨h.aligned, h.rooted⟩
  apart := fun r hr r' hr' hne => by
    rw [List.mem_singleton] at hr hr'
    exact absurd (hr.trans hr'.symm) hne

theorem tablesUsed (h : KernelLayout label pm) : TablesUsed pm where
  aligned := by
    have := h.aligned
    omega
  used := fun n t ht => by
    obtain ⟨lead, hlead⟩ := ht.labelled h.layout.tables.labelled h.rooted
    exact h.layout.allocated.used t (by simp [hlead])
  free := fun f hf => h.layout.allocated.free f (Bitmap.mem_freeSet.mp hf)

end KernelLayout

/-- In complete windows a root leads to a PDP table and to two directories. -/
theorem Layout.links {label : Labelling} {pm : PageManager} (h : Layout label pm) {r : Nat}
    (hr : label r = some (3, 0)) :
    (pm.memory r 0).present = true ∧ label (pm.memory r 0).address = some (2, 0) ∧
      ∀ i < 2, (pm.memory (pm.memory r 0).address i).present = true := by
  have hp : (pm.memory r 0).present = true := h.windows.full r 2 0 (by decide) hr
  have hpdp : label (pm.memory r 0).address = some (2, 0) :=
    h.tables.labelled r 2 0 0 hr (by decide)
      (stops_eq_false.mpr ⟨hp, fun h1 => absurd h1 (by decide)⟩)
  refine ⟨hp, hpdp, fun i hi => ?_⟩
  have hplace : label (pm.memory r 0).address = some (pageFormat.place (1 + 1) (i * 2 ^ 18)) := by
    have hz : i * 2 ^ 18 / 512 ^ 3 = 0 := Nat.div_eq_of_lt (by omega)
    rw [hpdp, Format.place]
    exact congrArg (fun k => some (2, k)) hz.symm
  have hidx : pageFormat.index (1 + 1) (i * 2 ^ 18) = i := by
    show i * 2 ^ 18 / 512 ^ 2 % 512 = i
    omega
  have hfull := h.windows.full _ 1 (i * 2 ^ 18) (by rw [windowPages]; omega) hplace
  rwa [hidx] at hfull

theorem tableCount_eq {label : Labelling} {pm : PageManager} (h : Layout label pm) {r : Nat}
    (hr : label r = some (3, 0)) : tableCount pm.memory r = 4 := by
  obtain ⟨hp, -, hpi⟩ := h.links hr
  rw [tableCount, if_pos hp, hpi 0 (by decide), hpi 1 (by decide)]
  rfl

/-- Where links stay, so do the frames that would be freed for a root. -/
theorem ownFrames_extends {label : Labelling} {pm : PageManager}
    {memory' : Nat → Nat → PageTableEntry} (h : Layout label pm) {r : Nat}
    (hr : label r = some (3, 0)) (hl : pageFormat.Extends label pm.memory memory') :
    ownFrames memory' r = ownFrames pm.memory r := by
  obtain ⟨hp, hpdp, hpi⟩ := h.links hr
  have hgoes {n : Nat} {e : PageTableEntry} (he : e.present = true) (hn : n + 1 ≠ 1) :
      pageFormat.stops (n + 1) e = false := stops_eq_false.mpr ⟨he, fun h1 => absurd h1 hn⟩
  obtain ⟨hs, ha⟩ := hl r 2 0 0 hr (by decide) (hgoes hp (by decide))
  have ha' : (memory' r 0).address = (pm.memory r 0).address := ha
  have hdir (i : Nat) (hi : i < 2) : directoryFrame memory' (pm.memory r 0).address i =
      directoryFrame pm.memory (pm.memory r 0).address i := by
    obtain ⟨hsi, hai⟩ := hl _ 1 0 i hpdp (show i < 512 by omega) (hgoes (hpi i hi) (by decide))
    have hai' : (memory' (pm.memory r 0).address i).address =
        (pm.memory (pm.memory r 0).address i).address := hai
    rw [directoryFrame, directoryFrame, if_pos (hpi i hi), if_pos (stops_eq_false.mp hsi).1, hai']
  rw [ownFrames, ownFrames, if_pos hp, if_pos (stops_eq_false.mp hs).1, ha', hdir 0 (by decide),
    hdir 1 (by decide)]

/-- What has become of the frames and the tables when an app has got its tables and `n`
pages of memory. -/
structure AppTables (label : Labelling) (pm : PageManager) (r n : Nat) (taken : Finset Nat)
    (pm' : PageManager) : Prop where
  takes : pm.frames.Takes taken pm'.frames
  card : 4 + n ≤ taken.card
  kernel : KernelLayout label pm'
  root : r ∈ taken
  own : ownFrames pm'.memory r ⊆ taken
  others : ∀ t, pm.frames.bitmap.get t = true → label t = none → pm'.memory t = pm.memory t
  pml4 : pm'.pml4Table = pm.pml4Table

/-- A new process gets tables of its own and memory in the windows, when frames do not run
out. -/
theorem KernelLayout.createAppTables {label : Labelling} {pm pm₁ pm₂ : PageManager}
    (h : KernelLayout label pm) {ptr v size flags : Nat} (hv : v % kPageSize4K = 0)
    (hrange : v + size ≤ 0x80000000) (hcreate : pm.createProcessPageTable = (ptr, pm₁))
    (halloc : pm₁.allocateVirtualForProcess ptr v size flags = (true, pm₂))
    (hout : pm₂.outOfFrames = false) :
    ∃ r taken, ptr = r * 4096 ∧
      AppTables label pm r (PageManager.numPages size) taken pm₂ := by
  obtain ⟨y, z, hx⟩ := PageManager.allocateVirtualForProcess_eq pm₁ ptr v size flags
  rw [hx, PageManager.allocateVirtual, if_neg (by omega)] at halloc
  obtain ⟨hok, rfl⟩ := Prod.mk.inj halloc
  have hout₁ : PageManager.outOfFrames { pm₁ with pml4Table := ptr, cr3 := y } = false :=
    PageManager.outOfFrames_allocateLoop hout
  change pm₁.outOfFrames = false at hout₁
  rcases h.tablesUsed.createProcessPageTable with ⟨-, he⟩ | ⟨r, taken₁, pm₁', he, hc⟩
  · obtain ⟨-, rfl⟩ := Prod.mk.inj (he.symm.trans hcreate)
    cases hout₁
  obtain ⟨rfl, rfl⟩ := Prod.mk.inj (he.symm.trans hcreate)
  rcases hc.own with ⟨-, hown, hcard⟩ | ⟨-, -, hflag, -⟩
  swap
  · rw [hflag] at hout₁
    cases hout₁
  rw [tableCount_eq h.layout h.rooted] at hcard
  obtain ⟨r', label₁, pm₁'', he', hcr⟩ := h.layout.createProcessPageTable h.rooted
    h.tablesUsed.aligned (by rw [he]; exact hout₁)
  obtain ⟨hr, rfl⟩ := Prod.mk.inj (he'.symm.trans he)
  obtain rfl : r' = r := by omega
  have hsep : Separate label₁ { pm₁'' with pml4Table := r' * 4096, cr3 := y }
      (r' * 4096 :: [pm.pml4Table]) := (h.separate.create hcr).congr rfl rfl fun _ hr => hr
  obtain ⟨label₂, hm⟩ := MapsUnder.allocateLoop (PageManager.numPages size) 0 hsep
    (List.mem_cons_self ..) rfl
    (fun j _ hj => ProcessSystem.rangePage_lt hv hrange (by omega)) hout
  obtain ⟨s, htakes, hs⟩ := (PageManager.allocateLoop_takesSome
    { pm₁'' with pml4Table := r' * 4096, cr3 := y } v flags (PageManager.numPages size) 0).2 hok
  have hdiv : r' * 4096 / 4096 = r' := Nat.mul_div_cancel r' (by decide)
  -- A frame that was in use and is no page table of the kernel stays as it is.
  have hkept {t : Nat} (hused : pm.frames.bitmap.get t = true)
      (hlab : ∀ lead, label t ≠ some (0, lead)) :
      ((PageManager.allocateLoop { pm₁'' with pml4Table := r' * 4096, cr3 := y } v flags
        (PageManager.numPages size) 0).2).memory t = pm.memory t := by
    refine (hm.keeps t (hcr.adds.grows.used t hused) ?_ ?_).trans (hcr.same t hused)
    · exact MapsUnder.label_ne hcr.adds.grows hcr.adds.keeps.labels hused hlab
    · intro k page hk hpage hmeets
      rw [hdiv] at hmeets
      rw [hcr.own page hpage k t hk hmeets] at hused
      cases hused
  have htaken := hc.gains.takes.trans htakes
  refine ⟨r', taken₁ ∪ s, rfl, htaken, ?_, ⟨?_, ?_, ?_⟩, ?_, ?_, fun t hused hnone => ?_, ?_⟩
  · rw [Finset.card_union_of_disjoint (hc.gains.takes.disjoint htakes), hcard]
    omega
  · refine h.layout.congr (fun t n lead ht => ?_) (fun t ht => ?_) fun f hf => ?_
    · exact hkept (h.layout.allocated.used t (by simp [ht])) (by simp [ht])
    · exact htaken.used (h.layout.allocated.used t ht)
    · rw [htaken.left] at hf
      exact h.tablesUsed.free f (Finset.mem_sdiff.mp hf).1
  · dsimp only
    rw [hcr.adds.pml4]
    exact h.aligned
  · dsimp only
    rw [hcr.adds.pml4]
    exact h.rooted
  · exact Finset.mem_union_left _ hc.root
  · have hsame := ownFrames_extends hsep.layout hcr.rooted hm.links
    dsimp only at hsame ⊢
    rw [hsame, hown]
    exact Finset.subset_union_left
  · exact hkept hused (by simp [hnone])
  · exact hcr.adds.pml4

/-- The labels of the tables of `bootedKernel`. -/
def identityLabel (t : Nat) : Option (Nat × Nat) :=
  if t = 1 then some (3, 0)
  else if t = 2 then some (2, 0)
  else if 3 ≤ t ∧ t < 67 then some (1, t - 3)
  else none

private theorem identityLabel_cases {t : Nat} {x : Nat × Nat} (h : identityLabel t = some x) :
    (t = 1 ∧ x = (3, 0)) ∨ (t = 2 ∧ x = (2, 0)) ∨ (3 ≤ t ∧ t < 67 ∧ x = (1, t - 3)) := by
  rw [identityLabel] at h
  split at h
  · next h1 => exact Or.inl ⟨h1, (Option.some.inj h).symm⟩
  · split at h
    · next h2 => exact Or.inr (Or.inl ⟨h2, (Option.some.inj h).symm⟩)
    · split at h
      · next h3 => exact Or.inr (Or.inr ⟨h3.1, h3.2, (Option.some.inj h).symm⟩)
      · cases h

/-- An entry of these tables is clear, or a link to the table of its place, or a 2 MB page
of a directory. -/
private theorem identityTables_entry {t n lead i : Nat} (h : identityLabel t = some (n + 1, lead))
    (hi : i < 512) :
    (identityTables t i = 0 ∧ (n = 2 → i ≠ 0) ∧ (n = 1 → 64 ≤ i) ∧ n ≠ 0) ∨
    ∃ huge a, fields (identityTables t i) = ⟨true, true, true, huge, a⟩ ∧
      (huge = false → identityLabel a = some (n, lead * 512 + i)) ∧
      (huge = true → n = 0 ∧ a % 512 = 0) ∧ (n = 0 → huge = true) := by
  rcases identityLabel_cases h with ⟨rfl, hx⟩ | ⟨rfl, hx⟩ | ⟨hlo, hhi, hx⟩
  · obtain ⟨rfl, rfl⟩ : n = 2 ∧ lead = 0 := by simpa using hx
    by_cases hz : i = 0
    · subst hz
      exact Or.inr ⟨false, 2, by decide, fun _ => rfl, by decide, by decide⟩
    · exact Or.inl ⟨by simp [identityTables, hz], fun _ => hz, by omega, by decide⟩
  · obtain ⟨rfl, rfl⟩ : n = 1 ∧ lead = 0 := by simpa using hx
    by_cases h64 : i < 64
    · refine Or.inr ⟨false, i + 3, ?_, fun _ => ?_, fun hc => (by cases hc), by decide⟩
      · have he : identityTables 2 i = newLink (i + 3) true := by simp [identityTables, h64]
        rw [he]
        exact fields_newLink (by omega) true
      · rw [identityLabel, if_neg (by omega), if_neg (by omega), if_pos (by omega)]
        simp
    · exact Or.inl ⟨by simp [identityTables, h64], by omega, by omega, by decide⟩
  · obtain ⟨rfl, rfl⟩ : n = 0 ∧ lead = t - 3 := by simpa using hx
    have he : identityTables t i = identityTable (t - 3) i := by
      simp only [identityTables]
      rw [if_neg (by omega), if_neg (by omega), if_pos ⟨hlo, hhi⟩]
    rw [he]
    exact Or.inr ⟨true, (t - 3) * 2 ^ 18 + i * 2 ^ 9, fields_identityTable (by omega) hi,
      fun hc => (by cases hc), fun _ => ⟨rfl, by omega⟩, fun _ => rfl⟩

/-- So an entry that is present is writable and open to user mode. -/
private theorem identityTables_present {t n lead i : Nat}
    (h : identityLabel t = some (n + 1, lead)) (hi : i < 512)
    (hp : (identityTables t i).present = true) :
    ∃ huge a, fields (identityTables t i) = ⟨true, true, true, huge, a⟩ ∧
      (huge = false → identityLabel a = some (n, lead * 512 + i)) ∧
      (huge = true → n = 0 ∧ a % 512 = 0) ∧ (n = 0 → huge = true) := by
  rcases identityTables_entry h hi with ⟨hz, -⟩ | hsome
  · rw [hz] at hp
    exact absurd hp (by decide)
  · exact hsome

private theorem identityTables_tables : Tables identityLabel identityTables where
  labelled := fun t n lead i ht hi hs => by
    obtain ⟨hp, hh⟩ := stops_eq_false.mp hs
    obtain ⟨huge, a, hf, hlink, hpage, hzero⟩ := identityTables_present ht hi hp
    obtain ⟨-, -, -, hhuge, haddr⟩ := Fields.mk.inj hf
    have hfalse : huge = false := by
      by_contra hc
      rw [Bool.not_eq_false] at hc
      obtain ⟨rfl, -⟩ := hpage hc
      rw [hh rfl] at hhuge
      rw [hc] at hhuge
      cases hhuge
    exact (congrArg identityLabel haddr).trans (hlink hfalse)
  clear := fun t n lead i ht hi hp => by
    rcases identityTables_entry ht hi with ⟨hz, -⟩ | ⟨huge, a, hf, -⟩
    · exact hz
    · rw [show (identityTables t i).present = true from congrArg Fields.present hf] at hp
      cases hp
  writable := fun t n lead i ht hi hp => by
    obtain ⟨huge, a, hf, -⟩ := identityTables_present ht hi hp
    exact congrArg Fields.readWrite hf
  huge := fun t n lead i ht hi hp hh => by
    obtain ⟨huge, a, hf, -, hpage, -⟩ := identityTables_present ht hi hp
    obtain ⟨-, -, -, hhuge, haddr⟩ := Fields.mk.inj hf
    rw [haddr]
    exact hpage (hhuge.symm.trans hh)
  user := fun t n lead i ht hi hs _ _ _ => by
    obtain ⟨huge, a, hf, -⟩ := identityTables_present ht hi (stops_eq_false.mp hs).1
    exact congrArg Fields.userSupervisor hf

private theorem identityTables_windows : Windows identityLabel identityTables where
  allUser := fun t n lead i ht hi hp => by
    obtain ⟨huge, a, hf, -⟩ := identityTables_present ht hi hp
    exact congrArg Fields.userSupervisor hf
  full := fun t m page hpage ht => by
    rw [windowPages] at hpage
    rcases identityTables_entry ht (index_lt_base (m + 1) page) with
      ⟨-, h2, h1, h0⟩ | ⟨huge, a, hf, -⟩
    · exfalso
      obtain rfl | rfl : m = 1 ∨ m = 2 := by
        rcases identityLabel_cases ht with ⟨-, hx⟩ | ⟨-, hx⟩ | ⟨-, -, hx⟩ <;>
          have := congrArg Prod.fst hx <;> simp [Format.place] at this <;> omega
      · have hidx := h1 rfl
        rw [show pageFormat.index (1 + 1) page = page / 512 ^ 2 % 512 from rfl] at hidx
        omega
      · refine h2 rfl ?_
        show page / 512 ^ 3 % 512 = 0
        omega
    · exact congrArg Fields.present hf

theorem bootedKernel_layout {bytes : List (BitVec 8)} (h : Fits bytes) :
    KernelLayout identityLabel (bootedKernel bytes) where
  layout := by
    refine ⟨identityTables_tables, ⟨rfl, fun t ht => ?_, fun t ht => ?_⟩, identityTables_windows⟩
    · obtain ⟨x, hx⟩ := Option.ne_none_iff_exists'.mp ht
      refine h.1 t ?_
      rcases identityLabel_cases hx with ⟨rfl, -⟩ | ⟨rfl, -⟩ | ⟨-, hlt, -⟩ <;> omega
    · exact (bootedKernel_tablesInUse h).free t (Bitmap.mem_freeSet.mpr ht)
  aligned := by
    rw [show (bootedKernel bytes).pml4Table = 4096 from rfl]
  rooted := by
    rw [show (bootedKernel bytes).pml4Table = 4096 from rfl]
    rfl

end Sylphia
