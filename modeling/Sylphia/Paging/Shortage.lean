import Sylphia.Paging.Roots

/-!
# Calls that may run out of frames

What `AllocateVirtual` and `CreateProcessPageTable` do to the tables of all roots, whether or
not there are frames enough for them: no translation changes but those of the pages that are
mapped.
-/

namespace Sylphia

open RadixTree PageTableEntry

/-- The tables of all roots together, with every link open to user mode. -/
structure Spaces (label : Labelling) (pm : PageManager) : Prop where
  tables : Tables label pm.memory
  allocated : Allocated label pm.frames
  allUser : AllUser label pm.memory

/-- Tables are added, and none but these pages may change their translations. -/
structure Changes (pages : Nat → Prop) (label : Labelling) (pm : PageManager) (label' : Labelling)
    (pm' : PageManager) : Prop where
  spaces : Spaces label' pm'
  labels : ∀ t x, label t = some x → label' t = some x
  grows : Grows label pm.frames label' pm'.frames
  others : ∀ r page, label r = some (pageFormat.place 3 page) → ¬pages page →
    pageFormat.lookup pm'.memory 3 r page = pageFormat.lookup pm.memory 3 r page
  pml4 : pm'.pml4Table = pm.pml4Table

/-- The pages of the range that `AllocateVirtual` is called for, if it starts at a page. -/
def RangePages (virtualAddr size page : Nat) : Prop :=
  virtualAddr % kPageSize4K = 0 ∧
    ∃ j < PageManager.numPages size, page = rangePage virtualAddr j

namespace Changes

variable {pages pages' : Nat → Prop} {label label₁ label' : Labelling} {pm pm₁ pm' : PageManager}

/-- Only the record of failures is touched. -/
theorem record (h : Spaces label pm) (flag : Bool) :
    Changes pages label pm label { pm with outOfFrames := flag } :=
  ⟨⟨h.tables, h.allocated, h.allUser⟩, fun _ _ hx => hx, Grows.refl _ _, fun _ _ _ _ => rfl, rfl⟩

theorem trans (h : Changes pages label pm label₁ pm₁) (h' : Changes pages label₁ pm₁ label' pm') :
    Changes pages label pm label' pm' where
  spaces := h'.spaces
  labels := fun t x hx => h'.labels t x (h.labels t x hx)
  grows := h.grows.trans h'.grows
  others := fun r page hr hp =>
    (h'.others r page (h.labels r _ hr) hp).trans (h.others r page hr hp)
  pml4 := h'.pml4.trans h.pml4

theorem mono (h : Changes pages label pm label' pm') (hle : ∀ page, pages page → pages' page) :
    Changes pages' label pm label' pm' :=
  ⟨h.spaces, h.labels, h.grows, fun r page hr hp => h.others r page hr fun ho => hp (hle page ho),
    h.pml4⟩

theorem of_keeps (h : Spaces label' pm') (hk : Keeps label pm.memory label' pm'.memory)
    (hg : Grows label pm.frames label' pm'.frames) (hpml4 : pm'.pml4Table = pm.pml4Table) :
    Changes pages label pm label' pm' :=
  ⟨h, hk.labels, hg, fun r page hr _ => hk.lookups 3 r page hr, hpml4⟩

end Changes

namespace Spaces

variable {label : Labelling} {pm : PageManager} {root v flags : Nat}

theorem sound (h : Spaces label pm) (hroot : label root = some (3, 0)) :
    Sound AllUser root label pm := ⟨h.tables, h.allocated, h.allUser, hroot⟩

/-- Labels can be dropped from tables to which no link of the others leads. -/
theorem restrict (h : Spaces label pm) {P : Nat → Prop}
    (hclosed : ∀ t n lead i, P t → label t = some (n + 1, lead) → i < 512 →
      pageFormat.stops (n + 1) (pm.memory t i) = false → P (pm.memory t i).address) :
    Spaces (RadixTree.restrict label P) pm := by
  refine ⟨⟨?_, ?_, ?_, ?_, ?_⟩, ⟨?_, ?_, h.allocated.free⟩, ?_⟩
  · intro t n lead i ht hi hs
    obtain ⟨hp, hl⟩ := restrict_eq_some.mp ht
    exact restrict_eq_some.mpr
      ⟨hclosed t n lead i hp hl hi hs, h.tables.labelled t n lead i hl hi hs⟩
  · intro t n lead i ht
    exact h.tables.clear t n lead i (restrict_eq_some.mp ht).2
  · intro t n lead i ht
    exact h.tables.writable t n lead i (restrict_eq_some.mp ht).2
  · intro t n lead i ht
    exact h.tables.huge t n lead i (restrict_eq_some.mp ht).2
  · intro t n lead i ht
    exact h.tables.user t n lead i (restrict_eq_some.mp ht).2
  · simp [RadixTree.restrict, h.allocated.null]
  · intro t ht
    obtain ⟨x, hx⟩ := Option.ne_none_iff_exists'.mp ht
    exact h.allocated.used t (by simp [(restrict_eq_some.mp hx).2])
  · intro t n lead i ht
    exact h.allUser t n lead i (restrict_eq_some.mp ht).2

/-- One iteration of `MapPage`. -/
theorem mapOne {paddr : Nat} (h : Spaces label pm) (hroot : label root = some (3, 0))
    (hpml4 : pm.pml4Table = root * 4096) (hu : hasFlag flags kUser = true) :
    ∃ label', Changes (· = pageOf v) label pm label' (pm.mapOne v paddr flags).2 := by
  have hK : Discipline AllUser (hasFlag flags kUser) (pageOf v) root := by
    rw [hu]
    exact allUser_discipline _ _
  rcases (h.sound hroot).mapOne_cases hK hpml4 with
    ⟨label', pm', c, he, -, hmaps⟩ | ⟨label', pm', he, hprep⟩
  · rw [he]
    have hs := hmaps.sound
    exact ⟨label', ⟨hs.tables, hs.allocated, hs.kept⟩, hmaps.labels, hmaps.grows,
      fun r page hr hne => hmaps.others r page hr hne, hmaps.pml4⟩
  · rw [he]
    have hs := hprep.sound
    exact ⟨label', .of_keeps ⟨hs.tables, hs.allocated, hs.kept⟩ hprep.keeps hprep.grows
      hprep.pml4⟩

/-- The loop of `AllocateVirtual`. -/
theorem allocateLoop (n i : Nat) (h : Spaces label pm) (hroot : label root = some (3, 0))
    (hpml4 : pm.pml4Table = root * 4096) (hu : hasFlag flags kUser = true) :
    ∃ label', Changes (fun page => ∃ j, i ≤ j ∧ j < i + n ∧ page = rangePage v j) label pm label'
      (pm.allocateLoop v flags n i).2 := by
  induction n generalizing i pm label with
  | zero => exact ⟨label, .record h pm.outOfFrames⟩
  | succ n ih =>
    have hK : Discipline AllUser (hasFlag flags kUser) (rangePage v i) root := by
      rw [hu]
      exact allUser_discipline _ _
    rcases (h.sound hroot).allocateOne_cases hK hpml4 with
      ⟨-, he⟩ | ⟨f, pm₁, -, -, -, hprep, he⟩
    · rw [he]
      exact ⟨label, .record h true⟩
    · rw [he]
      have h₁ : Spaces label pm₁ :=
        ⟨hprep.sound.tables, hprep.sound.allocated, hprep.sound.kept⟩
      have htake : Changes (· = rangePage v i) label pm label pm₁ :=
        .of_keeps h₁ hprep.keeps hprep.grows hprep.pml4
      obtain ⟨label₂, h₂⟩ : ∃ label₂, Changes (· = rangePage v i) label pm₁ label₂
          (pm₁.mapOne ((v + i * kPageSize4K) % 2 ^ 64) (f * 4096) flags).2 :=
        h₁.mapOne hroot (hprep.pml4.trans hpml4) hu
      have hone := htake.trans h₂
      obtain ⟨label', h'⟩ := ih (i + 1) h₂.spaces (h₂.labels root _ hroot)
        (hone.pml4.trans hpml4)
      refine ⟨label', (hone.mono ?_).trans (h'.mono ?_)⟩
      · rintro page rfl
        exact ⟨i, le_rfl, by omega, rfl⟩
      · rintro page ⟨j, hj, hjn, rfl⟩
        exact ⟨j, by omega, by omega, rfl⟩

/-- `AllocateVirtual` maps at most the pages of its range. -/
theorem allocateVirtual {size : Nat} (h : Spaces label pm) (hroot : label root = some (3, 0))
    (hpml4 : pm.pml4Table = root * 4096) (hu : hasFlag flags kUser = true) :
    ∃ label', Changes (RangePages v size) label pm label' (pm.allocateVirtual v size flags).2 := by
  rw [PageManager.allocateVirtual]
  split
  · exact ⟨label, .record h pm.outOfFrames⟩
  · next hv =>
    obtain ⟨label', h'⟩ := h.allocateLoop (PageManager.numPages size) 0 hroot hpml4 hu
    refine ⟨label', h'.mono ?_⟩
    rintro page ⟨j, -, hj, rfl⟩
    exact ⟨not_not.mp hv, j, by omega, rfl⟩

theorem shaped (h : Spaces label pm) : Shaped label pm :=
  ⟨h.allocated, h.tables.labelled, h.tables.clear, h.tables.writable⟩

/-- Copies of tables are open to user mode where the originals are. -/
theorem copies (h : Spaces label pm) {label' : Labelling} {pm' : PageManager}
    (hc : Copies label pm label' pm') : Changes (fun _ => False) label pm label' pm' := by
  have huser : AllUser label' pm'.memory := by
    intro t n lead i ht hi hp
    obtain ⟨s, hs, ha⟩ := hc.alike t n lead i ht hi
    obtain ⟨hsp, -, hsu, -, -⟩ := Fields.mk.inj ha.fields
    rw [hsu]
    exact h.allUser s n lead i hs hi (hsp.symm.trans hp)
  have htables : Tables label' pm'.memory := by
    refine ⟨hc.shaped.labelled, hc.shaped.clear, hc.shaped.writable,
      fun t n lead i ht hi hp hh => ?_,
      fun t n lead i ht hi hs _ _ _ => huser t n lead i ht hi (stops_eq_false.mp hs).1⟩
    obtain ⟨s, hs, ha⟩ := hc.alike t n lead i ht hi
    obtain ⟨hsp, -, -, hsh, -⟩ := Fields.mk.inj ha.fields
    have hsh' := hsh.symm.trans hh
    obtain ⟨rfl, haligned⟩ := h.tables.huge s n lead i hs hi (hsp.symm.trans hp) hsh'
    exact ⟨rfl, by rw [ha.ends (stops_of_huge hsh'), haligned]⟩
  exact .of_keeps ⟨htables, hc.shaped.allocated, huser⟩ hc.keeps hc.grows hc.pml4

/-- A new root with the translations of another. -/
structure AddsRoot (label : Labelling) (pm : PageManager) (root a : Nat) (label' : Labelling)
    (pm' : PageManager) : Prop where
  changes : Changes (fun _ => False) label pm label' pm'
  rooted : label' a = some (3, 0)
  translates : ∀ page < 2 ^ 36,
    pageFormat.lookup pm'.memory 3 a page = pageFormat.lookup pm.memory 3 root page

/-- `CreateProcessPageTable` returns null, or a root with the kernel's translations. -/
theorem createProcessPageTable (h : Spaces label pm) (hroot : label root = some (3, 0))
    (hpml4 : pm.pml4Table = root * 4096) :
    pm.createProcessPageTable = (0, { pm with outOfFrames := true }) ∨
    ∃ a label' pm', pm.createProcessPageTable = (a * 4096, pm') ∧ a ≠ 0 ∧
      AddsRoot label pm root a label' pm' := by
  refine (h.shaped.createProcessPageTable hroot hpml4).imp_right ?_
  rintro ⟨a, label', pm', he, ha, hcopy⟩
  exact ⟨a, label', pm', he, ha, h.copies hcopy.copies, hcopy.rooted, hcopy.translates⟩

end Spaces

end Sylphia
