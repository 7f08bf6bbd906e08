import Sylphia.Core.Run
import Sylphia.Paging.Process

/-!
# Isolation of processes

Runs of `CreateProcessPageTable`, `AllocateVirtual` and `AllocateVirtualForProcess` in the
windows of apps. Above the last level every root has tables of its own there, but a page
table that was there when the process was created belongs to several roots.
-/

namespace Sylphia

open RadixTree PageTableEntry

/-- The page tables of two roots for a page are not one and the same. -/
def Unshared (memory : Nat → Nat → PageTableEntry) (cr3 cr3' page : Nat) : Prop :=
  ∀ c, pageFormat.meets memory 0 3 (cr3 / 4096) page = some c →
    pageFormat.meets memory 0 3 (cr3' / 4096) page ≠ some c

/-- The roots have tables of their own in the windows, down to the page directories. -/
structure Separate (label : Labelling) (pm : PageManager) (roots : List Nat) : Prop where
  layout : Layout label pm
  rooted : ∀ cr3 ∈ roots, cr3 % 4096 = 0 ∧ label (cr3 / 4096) = some (3, 0)
  apart : ∀ cr3 ∈ roots, ∀ cr3' ∈ roots, cr3 ≠ cr3' → ∀ page < windowPages,
    ∀ page' < windowPages, ∀ k t, 1 ≤ k →
    pageFormat.meets pm.memory k 3 (cr3 / 4096) page = some t →
    pageFormat.meets pm.memory k 3 (cr3' / 4096) page' ≠ some t

namespace Separate

variable {label label' : Labelling} {pm pm' : PageManager} {roots roots' : List Nat}
  {cr3 root page : Nat}

theorem root_place (h : Separate label pm roots) (hr : root ∈ roots) (hpage : page < 2 ^ 36) :
    label (root / 4096) = some (pageFormat.place 3 page) := by
  rw [(h.rooted root hr).2, place_three hpage]

theorem sound (h : Separate label pm roots) (hr : root ∈ roots) :
    Sound Windows (root / 4096) label pm :=
  ⟨h.layout.tables, h.layout.allocated, h.layout.windows, (h.rooted root hr).2⟩

/-- In the windows every walk gets down to a page directory. -/
theorem meets (h : Separate label pm roots) (hr : root ∈ roots) (hpage : page < windowPages)
    {k : Nat} (hk : 1 ≤ k) (hk3 : k ≤ 3) :
    ∃ t, pageFormat.meets pm.memory k 3 (root / 4096) page = some t := by
  have hplace := h.root_place hr (lt_trans hpage (by decide))
  obtain ⟨d, rfl⟩ : ∃ d, k = 3 - d := ⟨3 - k, by omega⟩
  induction d with
  | zero => exact ⟨root / 4096, rfl⟩
  | succ d ih =>
    obtain ⟨t, ht⟩ := ih (by omega) (by omega)
    obtain ⟨m, hm⟩ : ∃ m, 3 - (d + 1) = m ∧ 3 - d = m + 1 := ⟨3 - (d + 1), rfl, by omega⟩
    rw [hm.1]
    rw [hm.2] at ht
    have hlab := h.layout.tables.labelled.meets_place base_pos hplace ht
    have hp := h.layout.windows.full t m page hpage hlab
    refine ⟨(pm.memory t (pageFormat.index (m + 1) page)).address, ?_⟩
    rw [Format.meets_below ht, stops_eq_false.mpr ⟨hp, fun h1 => by omega⟩,
      if_neg Bool.false_ne_true]
    rfl

/-- Where links stay, the roots keep tables of their own. -/
theorem extend (h : Separate label pm roots) (hlayout : Layout label' pm')
    (hlabels : ∀ t x, label t = some x → label' t = some x)
    (hlinks : pageFormat.Extends label pm.memory pm'.memory) : Separate label' pm' roots where
  layout := hlayout
  rooted := fun r hr => ⟨(h.rooted r hr).1, hlabels _ _ (h.rooted r hr).2⟩
  apart := by
    intro r hr r' hr' hne p hp p' hp' k t hk hm hm'
    -- Both walks get to this level before, and so to the same tables.
    have hk3 : k ≤ 3 := Format.le_of_meets hm
    have hold {r p : Nat} (hr : r ∈ roots) (hp : p < windowPages)
        (hm : pageFormat.meets pm'.memory k 3 (r / 4096) p = some t) :
        pageFormat.meets pm.memory k 3 (r / 4096) p = some t := by
      obtain ⟨s, hs⟩ := h.meets hr hp hk hk3
      have hs' := hlinks.meets h.layout.tables.labelled base_pos
        (h.root_place hr (lt_trans hp (by decide))) hs
      rw [hs, ← hs', hm]
    exact h.apart r hr r' hr' hne p hp p' hp' k t hk (hold hr hp hm) (hold hr' hp' hm')

variable {paddr flags c : Nat}

/-- What mapping a page of one root leaves to the others. -/
theorem others_read (h : Separate label pm roots) (hcr3 : cr3 ∈ roots) (hpage : page < windowPages)
    (hmaps : Sound.MapsPage Windows (cr3 / 4096) page paddr flags label pm label' pm' c)
    (hr : root ∈ roots) (hne : root ≠ cr3) {p k t : Nat} (hp : p < windowPages) (hk : 1 ≤ k)
    (hm : pageFormat.meets pm.memory k 3 (root / 4096) p = some t) :
    pm'.memory t = pm.memory t := by
  have hlab := h.layout.tables.labelled.meets_place base_pos
    (h.root_place hr (lt_trans hp (by decide))) hm
  have hused := h.layout.allocated.used t (by simp [hlab])
  refine hmaps.along.off t hused fun k' hm' => ?_
  have hlab' := hmaps.sound.tables.labelled.meets_place base_pos
    (hmaps.sound.root_place (lt_trans hpage (by decide))) hm'
  rw [hmaps.labels t _ hlab, Option.some.injEq] at hlab'
  obtain rfl : k = k' := congrArg Prod.fst hlab'
  have hk3 : k ≤ 3 := Format.le_of_meets hm
  obtain ⟨s, hs⟩ := h.meets hcr3 hpage hk hk3
  have hs' := hmaps.along.links.meets h.layout.tables.labelled base_pos
    (h.root_place hcr3 (lt_trans hpage (by decide))) hs
  rw [hs', Option.some.injEq] at hm'
  exact h.apart root hr cr3 hcr3 hne p hp page hpage k t hk hm (hm' ▸ hs)

/-- Page tables that are not shared do not become so. -/
theorem unshared (h : Separate label pm roots) (hcr3 : cr3 ∈ roots) (hpage : page < windowPages)
    (hmaps : Sound.MapsPage Windows (cr3 / 4096) page paddr flags label pm label' pm' c)
    (hr : root ∈ roots) (hne : root ≠ cr3) {p : Nat} (hp : p < windowPages)
    (hun : Unshared pm.memory cr3 root p) : Unshared pm'.memory cr3 root p := by
  intro s hs hs'
  have hp36 := lt_trans hp (show windowPages < 2 ^ 36 by decide)
  have hroot := h.root_place hr hp36
  rw [Format.meets_congr (Nat.zero_le 3) fun k t hk hm => by
    rw [h.others_read hcr3 hpage hmaps hr hne hp hk hm]] at hs'
  have hlab := h.layout.tables.labelled.meets_place base_pos hroot hs'
  obtain ⟨d, hd⟩ := h.meets hcr3 hp le_rfl (by decide)
  have hlabd := h.layout.tables.labelled.meets_place base_pos (h.root_place hcr3 hp36) hd
  have hd' := hmaps.along.links.meets h.layout.tables.labelled base_pos (h.root_place hcr3 hp36) hd
  rw [Format.meets_below hd'] at hs
  split at hs
  · cases hs
  · next hstop' =>
    rw [Bool.not_eq_true] at hstop'
    have haddr : (pm'.memory d (pageFormat.index 1 p)).address = s := Option.some.inj hs
    cases hstop : pageFormat.stops 1 (pm.memory d (pageFormat.index 1 p)) with
    | true =>
      have hnone := hmaps.along.fresh d 0 _ _ hlabd (index_lt_base 1 p) hstop hstop'
      rw [haddr, hlab] at hnone
      cases hnone
    | false =>
      refine hun s ?_ hs'
      rw [Format.meets_below hd, hstop, if_neg Bool.false_ne_true, ← haddr]
      exact congrArg some (hmaps.along.links d 0 _ _ hlabd (index_lt_base 1 p) hstop).2.symm

/-- Mapping a page of one root changes no translation of the roots that do not share its
page table. -/
theorem lookup_other (h : Separate label pm roots) (hcr3 : cr3 ∈ roots)
    (hpage : page < windowPages)
    (hmaps : Sound.MapsPage Windows (cr3 / 4096) page paddr flags label pm label' pm' c)
    (hr : root ∈ roots) (hne : root ≠ cr3) (hun : Unshared pm.memory cr3 root page) {p : Nat}
    (hp : p < 2 ^ 36) :
    pageFormat.lookup pm'.memory 3 (root / 4096) p =
      pageFormat.lookup pm.memory 3 (root / 4096) p := by
  have hroot := h.root_place hr hp
  by_cases hpp : p = page
  · subst hpp
    exact hmaps.apart _ hroot
      (h.unshared hcr3 hpage hmaps hr hne hpage hun c hmaps.opens.meets_self)
  · exact hmaps.others _ p hroot hpp

/-- The loop of `AllocateVirtual` under one of the roots, when frames do not run out. -/
theorem allocateLoop {v flags : Nat} (n i : Nat) (h : Separate label pm roots)
    (hcr3 : cr3 ∈ roots) (hpml4 : pm.pml4Table = cr3)
    (hpages : ∀ j, i ≤ j → j < i + n → rangePage v j < windowPages)
    (hout : (pm.allocateLoop v flags n i).2.outOfFrames = false) :
    ∃ label', Separate label' (pm.allocateLoop v flags n i).2 roots ∧
      (pm.allocateLoop v flags n i).2.pml4Table = cr3 ∧
      ∀ root ∈ roots, root ≠ cr3 →
        (∀ j, i ≤ j → j < i + n → Unshared pm.memory cr3 root (rangePage v j)) →
        ∀ p < 2 ^ 36, pageFormat.lookup (pm.allocateLoop v flags n i).2.memory 3 (root / 4096) p =
          pageFormat.lookup pm.memory 3 (root / 4096) p := by
  induction n generalizing i pm label with
  | zero => exact ⟨label, h, hpml4, fun _ _ _ _ _ _ => rfl⟩
  | succ n ih =>
    have hpage := hpages i le_rfl (by omega)
    have hmul : cr3 / 4096 * 4096 = cr3 := by
      have := (h.rooted cr3 hcr3).1
      omega
    obtain ⟨f, label₁, pm₁, c, -, -, -, hmaps, he⟩ := (h.sound hcr3).allocateOne
      (windows_discipline _ hpage _) (hpml4.trans hmul.symm) hout
    rw [he] at hout ⊢
    have hnext : Separate label₁ pm₁ roots := h.extend
      ⟨hmaps.sound.tables, hmaps.sound.allocated, hmaps.sound.kept⟩ hmaps.labels hmaps.along.links
    obtain ⟨label', hsep, hsame, hothers⟩ := ih (i + 1) hnext (hmaps.pml4.trans hpml4)
      (fun j hj hjn => hpages j (by omega) (by omega)) hout
    refine ⟨label', hsep, hsame, fun root hr hne hun p hp => ?_⟩
    rw [hothers root hr hne (fun j hj hjn => h.unshared hcr3 hpage hmaps hr hne
      (hpages j (by omega) (by omega)) (hun j (by omega) (by omega))) p hp]
    exact h.lookup_other hcr3 hpage hmaps hr hne (hun i le_rfl (by omega)) hp

/-- A new root that `CreateProcessPageTable` makes joins the others. -/
theorem create {kernel a : Nat} (h : Separate label pm roots)
    (hc : Layout.CreatesRoot label pm kernel a label' pm') :
    Separate label' pm' (a * 4096 :: roots) := by
  have hsame {t : Nat} {x : Nat × Nat} (ht : label t = some x) : pm'.memory t = pm.memory t :=
    hc.same t (h.layout.allocated.used t (by simp [ht]))
  have hlinks : pageFormat.Extends label pm.memory pm'.memory := by
    intro t n lead i ht _ hs
    rw [hsame ht]
    exact ⟨hs, rfl⟩
  have hold := h.extend hc.adds.layout hc.adds.keeps.labels hlinks
  have hdiv : a * 4096 / 4096 = a := Nat.mul_div_cancel a (by decide)
  have hused {r p k t : Nat} (hr : r ∈ roots) (hp : p < windowPages) (hk : 1 ≤ k)
      (hm : pageFormat.meets pm'.memory k 3 (r / 4096) p = some t) :
      pm.frames.bitmap.get t = true := by
    have hk3 : k ≤ 3 := Format.le_of_meets hm
    have hplace := h.root_place hr (lt_trans hp (by decide))
    obtain ⟨s, hs⟩ := h.meets hr hp hk hk3
    rw [hlinks.meets h.layout.tables.labelled base_pos hplace hs, Option.some.injEq] at hm
    have hlab := h.layout.tables.labelled.meets_place base_pos hplace hs
    exact hm ▸ h.layout.allocated.used s (by simp [hlab])
  refine ⟨hc.adds.layout, fun r hr => ?_, ?_⟩
  · rcases List.mem_cons.mp hr with rfl | hr
    · rw [hdiv]
      exact ⟨Nat.mul_mod_left a 4096, hc.rooted⟩
    · exact hold.rooted r hr
  · intro r hr r' hr' hne p hp p' hp' k t hk hm hm'
    rcases List.mem_cons.mp hr with rfl | hr <;> rcases List.mem_cons.mp hr' with rfl | hr'
    · exact hne rfl
    · rw [hdiv] at hm
      have hfree := hc.own p hp k t hk hm
      rw [hused hr' hp' hk hm'] at hfree
      cases hfree
    · rw [hdiv] at hm'
      have hfree := hc.own p' hp' k t hk hm'
      rw [hused hr hp hk hm] at hfree
      cases hfree
    · exact hold.apart r hr r' hr' hne p hp p' hp' k t hk hm hm'

theorem congr (h : Separate label pm roots) (hm : pm'.memory = pm.memory)
    (hf : pm'.frames = pm.frames) (hr : ∀ r ∈ roots', r ∈ roots) : Separate label pm' roots' := by
  refine ⟨⟨?_, ?_, ?_⟩, fun r hr' => h.rooted r (hr r hr'), ?_⟩
  · rw [hm]
    exact h.layout.tables
  · rw [hf]
    exact h.layout.allocated
  · rw [hm]
    exact h.layout.windows
  · rw [hm]
    exact fun r hr₁ r' hr₂ => h.apart r (hr r hr₁) r' (hr r' hr₂)

end Separate

/-! ## Runs of the page manager -/

/-- The page manager and the roots that `CreateProcessPageTable` has returned. -/
structure ProcessSystem where
  pm : PageManager
  processes : List Nat

/-- The calls of a run. -/
inductive PagingOp
  | createProcessPageTable
  | allocateVirtual (virtualAddr size flags : Nat)
  | allocateVirtualForProcess (targetCr3 virtualAddr size flags : Nat)
  deriving DecidableEq, Repr

namespace ProcessSystem

/-- The kernel's root and those of the processes. -/
def roots (s : ProcessSystem) : List Nat := s.pm.getKernelCR3 :: s.processes

def step (s : ProcessSystem) : PagingOp → ProcessSystem
  | .createProcessPageTable =>
    let (cr3, pm) := s.pm.createProcessPageTable
    ⟨pm, cr3 :: s.processes⟩
  | .allocateVirtual v size flags => { s with pm := (s.pm.allocateVirtual v size flags).2 }
  | .allocateVirtualForProcess cr3 v size flags =>
    { s with pm := (s.pm.allocateVirtualForProcess cr3 v size flags).2 }

/-- The ranges lie in the windows, and the target of a call is a process. -/
def InWindows (s : ProcessSystem) : PagingOp → Prop
  | .createProcessPageTable => True
  | .allocateVirtual v size _ => v + size ≤ 0x80000000
  | .allocateVirtualForProcess cr3 v size _ => cr3 ∈ s.processes ∧ v + size ≤ 0x80000000

instance (s : ProcessSystem) (o : PagingOp) : Decidable (s.InWindows o) := by
  cases o <;> unfold InWindows <;> infer_instance

/-- The calls of a run in which frames do not run out. -/
def Admissible (s : ProcessSystem) (o : PagingOp) : Prop :=
  s.InWindows o ∧ (s.step o).pm.outOfFrames = false

instance (s : ProcessSystem) (o : PagingOp) : Decidable (s.Admissible o) :=
  inferInstanceAs (Decidable (_ ∧ _))

/-- The state after `Initialize`. -/
def Start (s : ProcessSystem) : Prop :=
  (∃ pm, Bootable pm ∧ pm.initializePaging = some s.pm) ∧ s.processes = [] ∧
    s.pm.outOfFrames = false

/-- The runs of the page manager from `Initialize` on. -/
abbrev Runs := Transition.Run step Admissible Start

/-- A call for one process changes no translation under another root. -/
def Isolated (_past : List (ProcessSystem × PagingOp)) (x : ProcessSystem × PagingOp) : Prop :=
  ∀ cr3 v size flags, x.2 = .allocateVirtualForProcess cr3 v size flags →
    ∀ root ∈ x.1.roots, root ≠ cr3 → ∀ w,
      translate (x.1.step x.2).pm.memory root w = translate x.1.pm.memory root w

/-- A call for one process is for pages whose page tables no other root has. -/
def OwnPageTables (_past : List (ProcessSystem × PagingOp)) (x : ProcessSystem × PagingOp) :
    Prop :=
  ∀ cr3 v size flags, x.2 = .allocateVirtualForProcess cr3 v size flags →
    ∀ root ∈ x.1.roots, root ≠ cr3 → ∀ j < PageManager.numPages size,
      Unshared x.1.pm.memory cr3 root (rangePage v j)

/-- The invariant of runs. -/
def Inv (_past : List (ProcessSystem × PagingOp)) (s : ProcessSystem) : Prop :=
  ∃ label, Separate label s.pm s.roots

theorem Start.inv {s : ProcessSystem} (h : s.Start) : Inv [] s := by
  obtain ⟨⟨pm, hb, hi⟩, hp, hout⟩ := h
  obtain ⟨root, pdp, label, hbooted, -, -⟩ := hb.initializePaging hi hout
  have hroots : s.roots = [root * 4096] := by rw [roots, PageManager.getKernelCR3, hp, hbooted.pml4]
  have hdiv : root * 4096 / 4096 = root := Nat.mul_div_cancel root (by decide)
  refine ⟨label, ⟨hbooted.tables, hbooted.allocated, hbooted.allUser, ?_⟩, fun r hr => ?_, ?_⟩
  · intro t m page hpage ht
    rw [windowPages] at hpage
    have hm := hbooted.oneRoot.level t _ _ ht
    obtain rfl | rfl | rfl : m = 0 ∨ m = 1 ∨ m = 2 := by omega
    · exact hbooted.directories t _ _ ht (index_lt_base 1 page)
    · rw [hbooted.pdpOnly t _ ht]
      refine hbooted.links _ ?_
      show page / 512 ^ 2 % 512 < 64
      omega
    · have hidx : pageFormat.index (2 + 1) page = 0 := by
        show page / 512 ^ 3 % 512 = 0
        omega
      rw [hbooted.oneRoot.top t _ ht, hidx]
      exact hbooted.rootLink
  · rw [hroots, List.mem_singleton] at hr
    rw [hr, hdiv]
    exact ⟨Nat.mul_mod_left root 4096, hbooted.rooted⟩
  · intro r hr r' hr' hne
    rw [hroots, List.mem_singleton] at hr hr'
    exact absurd (hr.trans hr'.symm) hne

theorem rangePage_lt {v size j : Nat} (hv : v % kPageSize4K = 0)
    (h : v + size ≤ 0x80000000) (hj : j < PageManager.numPages size) :
    rangePage v j < windowPages := by
  rw [PageManager.numPages] at hj
  rw [rangePage_eq, pageOf, windowPages]
  rw [kPageSize4K] at *
  omega

/-- `AllocateVirtual` under one of the roots, when frames do not run out. -/
private theorem allocateVirtual {label : Labelling} {pm : PageManager} {roots : List Nat}
    {cr3 v size flags : Nat} (h : Separate label pm roots) (hcr3 : cr3 ∈ roots)
    (hpml4 : pm.pml4Table = cr3) (hrange : v + size ≤ 0x80000000)
    (hout : (pm.allocateVirtual v size flags).2.outOfFrames = false) :
    ∃ label', Separate label' (pm.allocateVirtual v size flags).2 roots ∧
      (pm.allocateVirtual v size flags).2.pml4Table = cr3 ∧
      ∀ root ∈ roots, root ≠ cr3 →
        (∀ j < PageManager.numPages size, Unshared pm.memory cr3 root (rangePage v j)) →
        ∀ p < 2 ^ 36,
          pageFormat.lookup (pm.allocateVirtual v size flags).2.memory 3 (root / 4096) p =
            pageFormat.lookup pm.memory 3 (root / 4096) p := by
  rw [PageManager.allocateVirtual] at hout ⊢
  split at hout
  · next hv =>
    rw [if_pos hv]
    exact ⟨label, h, hpml4, fun _ _ _ _ _ _ => rfl⟩
  · next hv =>
    rw [if_neg hv]
    obtain ⟨label', hsep, hsame, hothers⟩ := h.allocateLoop (PageManager.numPages size) 0 hcr3 hpml4
      (fun j _ hj => rangePage_lt (by omega) hrange (by omega)) hout
    exact ⟨label', hsep, hsame, fun root hr hne hun =>
      hothers root hr hne fun j _ hj => hun j (by omega)⟩

/-- One call keeps the invariant, and it leaves the other roots alone when it is for page
tables of its own. -/
private theorem step_inv {past : List (ProcessSystem × PagingOp)} {s : ProcessSystem}
    {o : PagingOp} (h : Inv past s) (ho : s.Admissible o) :
    (OwnPageTables past (s, o) → Isolated past (s, o)) ∧ Inv ((s, o) :: past) (s.step o) := by
  obtain ⟨label, h⟩ := h
  obtain ⟨hwin, hout⟩ := ho
  have hkernel : s.pm.getKernelCR3 ∈ s.roots := List.mem_cons_self ..
  cases o with
  | createProcessPageTable =>
    refine ⟨fun _ cr3 v size flags hc => (by cases hc), ?_⟩
    obtain ⟨haligned, hlab⟩ := h.rooted _ hkernel
    have hpml4 : s.pm.pml4Table = s.pm.getKernelCR3 / 4096 * 4096 := by
      rw [PageManager.getKernelCR3] at haligned ⊢
      omega
    obtain ⟨a, label', pm', he, hcreates⟩ := h.layout.createProcessPageTable hlab hpml4 hout
    refine ⟨label', ?_⟩
    rw [step, he]
    refine (h.create hcreates).congr rfl rfl fun r hr => ?_
    rw [roots, PageManager.getKernelCR3, hcreates.adds.pml4] at hr
    rw [roots, PageManager.getKernelCR3]
    simp only [List.mem_cons] at hr ⊢
    tauto
  | allocateVirtual v size flags =>
    refine ⟨fun _ cr3 v size flags hc => (by cases hc), ?_⟩
    obtain ⟨label', hsep, hsame, -⟩ := allocateVirtual h hkernel rfl hwin hout
    refine ⟨label', hsep.congr rfl rfl fun r hr => ?_⟩
    rw [step, roots, PageManager.getKernelCR3, hsame] at hr
    exact hr
  | allocateVirtualForProcess cr3 v size flags =>
    obtain ⟨hproc, hrange⟩ := hwin
    have hcr3 : cr3 ∈ s.roots := List.mem_cons_of_mem _ hproc
    obtain ⟨y, z, he⟩ := PageManager.allocateVirtualForProcess_eq s.pm cr3 v size flags
    rw [step, he] at hout
    have h₁ : Separate label { s.pm with pml4Table := cr3, cr3 := y } s.roots :=
      h.congr rfl rfl fun _ hr => hr
    obtain ⟨label', hsep, -, hothers⟩ := allocateVirtual h₁ hcr3 rfl hrange hout
    constructor
    · intro hown cr3' v' size' flags' hc root hr hne w
      obtain ⟨rfl, rfl, rfl, rfl⟩ := PagingOp.allocateVirtualForProcess.inj hc
      have hun := hown cr3 v size flags rfl root hr hne
      have hlook := hothers root hr hne hun (pageOf w) (Nat.mod_lt _ (by decide))
      rw [step, he]
      exact hlook
    · refine ⟨label', hsep.congr ?_ ?_ fun r hr => ?_⟩
      · rw [step, he]
      · rw [step, he]
      · rw [step, he] at hr
        exact hr

/-- In every run whose calls for a process are for page tables of its own, these calls
change no translation under another root. -/
theorem process_isolation {run : List (ProcessSystem × PagingOp)} {s : ProcessSystem}
    (h : Runs run s) (hown : Transition.Throughout OwnPageTables run) :
    Transition.Throughout Isolated run :=
  (h.throughout (fun _ hs => hs.inv) (fun _ _ _ hi ho hc =>
    ⟨(step_inv hi ho).1 hc, (step_inv hi ho).2⟩) hown).1

/-- The small machine after `Initialize`. -/
def smallSystem : ProcessSystem := ⟨smallMachine.initializePaging.getD smallMachine, []⟩

theorem smallSystem_runs : Runs [] smallSystem := by
  obtain ⟨pm, hpm, hout⟩ := (Option.any_eq_true _ _).mp smallMachine_boots
  have hs : smallSystem.pm = pm := by rw [smallSystem, hpm, Option.getD_some]
  refine .start ⟨⟨smallMachine, smallMachine_bootable, ?_⟩, rfl, ?_⟩
  · rw [hpm, hs]
  · rw [hs]
    exact (Bool.not_eq_true' _).mp hout

/-- The kernel has mapped a page at 16 MB, and then the process with the root `0x45000` has
been created. -/
def kernelFirst : ProcessSystem :=
  (smallSystem.step (.allocateVirtual 0x1000000 4096 7)).step .createProcessPageTable

/-- What the process may do next, what it finds at 1 GB, and what a page at 16 MB changes. -/
private theorem kernelFirst_eval :
    (smallSystem.Admissible (.allocateVirtual 0x1000000 4096 7) ∧
      (smallSystem.step (.allocateVirtual 0x1000000 4096 7)).Admissible .createProcessPageTable) ∧
    (kernelFirst.Admissible (.allocateVirtualForProcess 0x45000 0x1000000 4096 7) ∧
      0x1000 ∈ kernelFirst.roots ∧
      translate (kernelFirst.step (.allocateVirtualForProcess 0x45000 0x1000000 4096 7)).pm.memory
        0x1000 0x1000000 ≠ translate kernelFirst.pm.memory 0x1000 0x1000000) ∧
    kernelFirst.Admissible (.allocateVirtualForProcess 0x45000 0x40000000 4096 7) ∧
      pageFormat.meets kernelFirst.pm.memory 0 3 (0x45000 / 4096) (rangePage 0x40000000 0) =
        none := by
  decide +kernel

/-- One more call after these. -/
private theorem kernelFirst_runs {o : PagingOp} (h : kernelFirst.Admissible o) :
    Runs [(kernelFirst, o), (smallSystem.step (.allocateVirtual 0x1000000 4096 7),
      .createProcessPageTable), (smallSystem, .allocateVirtual 0x1000000 4096 7)]
      (kernelFirst.step o) :=
  .step _ (.step _ (.step _ smallSystem_runs kernelFirst_eval.1.1) kernelFirst_eval.1.2) h

/-- The page at 16 MB of the process is the kernel's, too: mapping it for the process
changes the kernel's translation. -/
theorem process_isolation_shared :
    ¬∀ run s, Runs run s → Transition.Throughout Isolated run := by
  intro h
  obtain ⟨hallowed, hroot, hchanged⟩ := kernelFirst_eval.2.1
  have hisolated := (h _ _ (kernelFirst_runs hallowed)).1 0x45000 0x1000000 4096 7 rfl
  dsimp only at hisolated
  have hsame := hisolated 0x1000 hroot (by decide) 0x1000000
  exact hchanged hsame

/-- At 1 GB the process has a 2 MB page of its own, and is given a page there. -/
theorem process_isolation_apart : Transition.Throughout Isolated
    [(kernelFirst, .allocateVirtualForProcess 0x45000 0x40000000 4096 7),
      (smallSystem.step (.allocateVirtual 0x1000000 4096 7), .createProcessPageTable),
      (smallSystem, .allocateVirtual 0x1000000 4096 7)] := by
  obtain ⟨hallowed, hmeets⟩ := kernelFirst_eval.2.2
  refine process_isolation (kernelFirst_runs hallowed) ⟨?_, nofun, nofun, trivial⟩
  intro cr3 v size flags hc root _ _ j hj c hs
  obtain ⟨rfl, rfl, rfl, rfl⟩ := PagingOp.allocateVirtualForProcess.inj hc
  obtain rfl : j = 0 := by
    rw [show PageManager.numPages 4096 = 1 from rfl] at hj
    omega
  dsimp only at hs
  rw [hmeets] at hs
  cases hs

end ProcessSystem

end Sylphia
