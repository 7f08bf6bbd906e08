import Sylphia.Paging.Mapping

/-!
# The shape of page tables

What the operations on page tables keep whatever the flags of the pages are and however many
roots share a table, and what mapping a page costs: one frame for each level at which the walk
of the page meets no table. It stops where no frame is left.
-/

namespace Sylphia

open RadixTree PageTableEntry

/-- Entries above the last level are clear or writable, and lead to tables of their place. -/
structure Shaped (label : Labelling) (pm : PageManager) : Prop where
  allocated : Allocated label pm.frames
  labelled : pageFormat.Labelled label pm.memory
  clear : ∀ t n lead i, label t = some (n + 1, lead) → i < 512 →
    (pm.memory t i).present = false → pm.memory t i = 0
  writable : ∀ t n lead i, label t = some (n + 1, lead) → i < 512 →
    (pm.memory t i).present = true → (pm.memory t i).readWrite = true

/-- Links stay, and what they permit only grows. -/
def Widens (label : Labelling) (memory memory' : Nat → Nat → PageTableEntry) : Prop :=
  ∀ t n lead i, label t = some (n + 1, lead) → i < 512 →
    pageFormat.stops (n + 1) (memory t i) = false →
    pageFormat.stops (n + 1) (memory' t i) = false ∧
      (memory' t i).address = (memory t i).address ∧
      ((memory t i).readWrite = true → (memory' t i).readWrite = true) ∧
      ((memory t i).userSupervisor = true → (memory' t i).userSupervisor = true)

/-- The words of a new table of a level: each is like an entry of a table of that place. -/
def Suits (label : Labelling) (m lead : Nat) (words : Nat → PageTableEntry) : Prop :=
  ∀ n i, m = n + 1 → i < 512 →
    ((words i).present = false → words i = 0) ∧
    ((words i).present = true → (words i).readWrite = true) ∧
    (pageFormat.stops (n + 1) (words i) = false →
      label (words i).address = some (n, lead * 512 + i))

theorem Suits.zero (label : Labelling) (m lead : Nat) : Suits label m lead fun _ => 0 := by
  have hp : (0 : PageTableEntry).present = false := by decide
  intro n i _ _
  refine ⟨fun _ => rfl, fun h => ?_, fun h => ?_⟩
  · rw [hp] at h
    cases h
  · rw [stops_of_absent hp] at h
    cases h

theorem Suits.last (label : Labelling) (lead : Nat) (words : Nat → PageTableEntry) :
    Suits label 0 lead words := fun n _ h => absurd h.symm (Nat.succ_ne_zero n)

theorem Widens.refl (label : Labelling) (memory : Nat → Nat → PageTableEntry) :
    Widens label memory memory := fun _ _ _ _ _ _ hs => ⟨hs, rfl, id, id⟩

theorem Widens.trans {label label₁ : Labelling}
    {memory memory₁ memory' : Nat → Nat → PageTableEntry}
    (h : Widens label memory memory₁) (h' : Widens label₁ memory₁ memory')
    (hl : ∀ t x, label t = some x → label₁ t = some x) : Widens label memory memory' := by
  intro t n lead i ht hi hs
  obtain ⟨hs₁, ha₁, hw₁, hu₁⟩ := h t n lead i ht hi hs
  obtain ⟨hs', ha', hw', hu'⟩ := h' t n lead i (hl t _ ht) hi hs₁
  exact ⟨hs', ha'.trans ha₁, fun hw => hw' (hw₁ hw), fun hu => hu' (hu₁ hu)⟩

/-- An open way stays open. -/
theorem Opens.widens {label : Labelling} {memory memory' : Nat → Nat → PageTableEntry}
    {user : Bool} {page root m t : Nat} (ho : Opens memory user page root m t)
    (hw : Widens label memory memory') (hl : pageFormat.Labelled label memory)
    (hroot : label root = some (pageFormat.place 3 page)) : Opens memory' user page root m t := by
  induction ho with
  | root => exact .root
  | @child m t hup hs hrw hu ih =>
    obtain ⟨hs', ha', hw', hu'⟩ := hw t m _ _ (hup.label_eq hl hroot) (index_lt_base _ page) hs
    rw [← ha']
    exact ih.child hs' (hw' hrw) fun huser => hu' (hu huser)

namespace Shaped

variable {label : Labelling} {pm : PageManager} {t i c m lead : Nat} {e : PageTableEntry}
  {frames' : MemoryManager} {words : Nat → PageTableEntry}

theorem ne_of_label (hc : label c = none) {x : Nat × Nat} (ht : label t = some x) : t ≠ c := by
  rintro rfl
  rw [hc] at ht
  cases ht

/-- Labels can be dropped from tables to which no link of the others leads, and what the others
are like is all that counts. -/
theorem restrict {pm' : PageManager} (h : Shaped label pm) {P : Nat → Prop}
    (hclosed : ∀ t n lead i, P t → label t = some (n + 1, lead) → i < 512 →
      pageFormat.stops (n + 1) (pm.memory t i) = false → P (pm.memory t i).address)
    (hsame : ∀ t, P t → pm'.memory t = pm.memory t)
    (hused : ∀ t, P t → pm'.frames.bitmap.get t = true)
    (hfree : ∀ f, pm'.frames.bitmap.get f = false → 0 < f ∧ f < 2 ^ 40) :
    Shaped (RadixTree.restrict label P) pm' := by
  refine ⟨⟨?_, fun t ht => ?_, hfree⟩, fun t n lead i ht hi hs => ?_, fun t n lead i ht hi hp => ?_,
    fun t n lead i ht hi hp => ?_⟩
  · simp [RadixTree.restrict, h.allocated.null]
  · obtain ⟨x, hx⟩ := Option.ne_none_iff_exists'.mp ht
    exact hused t (restrict_eq_some.mp hx).1
  all_goals obtain ⟨hP, hl⟩ := restrict_eq_some.mp ht
  · rw [hsame t hP] at hs ⊢
    exact restrict_eq_some.mpr ⟨hclosed t n lead i hP hl hi hs, h.labelled t n lead i hl hi hs⟩
  · rw [hsame t hP] at hp ⊢
    exact h.clear t n lead i hl hi hp
  · rw [hsame t hP] at hp ⊢
    exact h.writable t n lead i hl hi hp

/-- A link is written. -/
theorem store (h : Shaped label pm) (ht : label t = some (m + 1, lead))
    (hp : e.present = true) (hw : e.readWrite = true)
    (hchild : pageFormat.stops (m + 1) e = false → label e.address = some (m, lead * 512 + i)) :
    Shaped label { pm with memory := storeWord pm.memory t i e } := by
  refine ⟨h.allocated, fun s n k j hs hj hstop => ?_, fun s n k j hs hj habsent => ?_,
    fun s n k j hs hj hpres => ?_⟩
  all_goals
    dsimp only at *
    by_cases hsj : s = t ∧ j = i
  · obtain ⟨rfl, rfl⟩ := hsj
    rw [ht, Option.some.injEq, Prod.mk.injEq, Nat.add_right_cancel_iff] at hs
    obtain ⟨rfl, rfl⟩ := hs
    rw [storeWord_self] at hstop ⊢
    exact hchild hstop
  · rw [storeWord_of_ne hsj] at hstop ⊢
    exact h.labelled s n k j hs hj hstop
  · obtain ⟨rfl, rfl⟩ := hsj
    rw [storeWord_self, hp] at habsent
    cases habsent
  · rw [storeWord_of_ne hsj] at habsent ⊢
    exact h.clear s n k j hs hj habsent
  · obtain ⟨rfl, rfl⟩ := hsj
    rw [storeWord_self]
    exact hw
  · rw [storeWord_of_ne hsj] at hpres ⊢
    exact h.writable s n k j hs hj hpres

/-- The entry of a page is written. -/
theorem store_leaf (h : Shaped label pm) (ht : label t = some (0, lead)) :
    Shaped label { pm with memory := storeWord pm.memory t i e } := by
  have hsame {s n k j : Nat} (hs : label s = some (n + 1, k)) :
      storeWord pm.memory t i e s j = pm.memory s j := by
    refine storeWord_of_ne ?_
    rintro ⟨rfl, -⟩
    rw [ht] at hs
    simp at hs
  refine ⟨h.allocated, fun s n k j hs hj => ?_, fun s n k j hs hj => ?_, fun s n k j hs hj => ?_⟩
  all_goals
    dsimp only
    rw [hsame hs]
  · exact h.labelled s n k j hs hj
  · exact h.clear s n k j hs hj
  · exact h.writable s n k j hs hj

/-- A free frame becomes a table. -/
theorem fill (h : Shaped label pm) (htake : PageManager.TakesFrame pm.frames c frames')
    (hwords : Suits label m lead words) :
    Shaped (Function.update label c (some (m, lead)))
      { pm with frames := frames', memory := Function.update pm.memory c words } := by
  have hc := h.allocated.label_eq_none htake
  refine ⟨h.allocated.label_frame htake _, fun s n k j hs hj => ?_, fun s n k j hs hj => ?_,
    fun s n k j hs hj => ?_⟩
  all_goals
    dsimp only
    rcases update_eq_some.mp hs with ⟨rfl, hx⟩ | ⟨hsc, hold⟩
  · obtain ⟨rfl, rfl⟩ := Prod.mk.inj hx
    rw [Function.update_self]
    intro hstop
    have hchild := (hwords n j rfl hj).2.2 hstop
    exact update_eq_some.mpr (Or.inr ⟨ne_of_label hc hchild, hchild⟩)
  · rw [Function.update_of_ne hsc]
    intro hstop
    have hchild := h.labelled s n k j hold hj hstop
    exact update_eq_some.mpr (Or.inr ⟨ne_of_label hc hchild, hchild⟩)
  · obtain ⟨rfl, rfl⟩ := Prod.mk.inj hx
    rw [Function.update_self]
    exact (hwords n j rfl hj).1
  · rw [Function.update_of_ne hsc]
    exact h.clear s n k j hold hj
  · obtain ⟨rfl, rfl⟩ := Prod.mk.inj hx
    rw [Function.update_self]
    exact (hwords n j rfl hj).2.1
  · rw [Function.update_of_ne hsc]
    exact h.writable s n k j hold hj

/-- A free frame is taken and filled with anything. -/
theorem fill_frame (h : Shaped label pm) (htake : PageManager.TakesFrame pm.frames c frames') :
    Shaped label { pm with frames := frames', memory := Function.update pm.memory c words } := by
  have hsame {s : Nat} {x : Nat × Nat} (hs : label s = some x) :
      Function.update pm.memory c words s = pm.memory s :=
    Function.update_of_ne (ne_of_label (h.allocated.label_eq_none htake) hs) _ _
  refine ⟨h.allocated.take htake, fun s n k j hs hj => ?_, fun s n k j hs hj => ?_,
    fun s n k j hs hj => ?_⟩
  all_goals
    dsimp only
    rw [hsame hs]
  · exact h.labelled s n k j hs hj
  · exact h.clear s n k j hs hj
  · exact h.writable s n k j hs hj

end Shaped

/-- Between two states the tables are extended and written for these pages only. -/
structure Proceeds (pages : Nat → Prop) (label : Labelling) (pm : PageManager) (label' : Labelling)
    (pm' : PageManager) : Prop where
  shaped : Shaped label' pm'
  labels : ∀ t x, label t = some x → label' t = some x
  grows : Grows label pm.frames label' pm'.frames
  widens : Widens label pm.memory pm'.memory
  /-- The entries of other pages stay. -/
  leaves : ∀ t lead i, label t = some (0, lead) → i < 512 → ¬pages (lead * 512 + i) →
    pm'.memory t i = pm.memory t i
  /-- The frames in use that are no tables stay. -/
  data : ∀ t, pm.frames.bitmap.get t = true → label t = none → pm'.memory t = pm.memory t
  pml4 : pm'.pml4Table = pm.pml4Table

namespace Proceeds

variable {pages pages' : Nat → Prop} {page : Nat} {label label₁ label' : Labelling}
  {pm pm₁ pm' : PageManager} {t i c m lead : Nat} {e : PageTableEntry} {frames' : MemoryManager}
  {words : Nat → PageTableEntry}

theorem refl (pages : Nat → Prop) (h : Shaped label pm) : Proceeds pages label pm label pm :=
  ⟨h, fun _ _ hx => hx, Grows.refl _ _, Widens.refl _ _, fun _ _ _ _ _ _ => rfl,
    fun _ _ _ => rfl, rfl⟩

theorem trans (h : Proceeds pages label pm label₁ pm₁)
    (h' : Proceeds pages label₁ pm₁ label' pm') : Proceeds pages label pm label' pm' where
  shaped := h'.shaped
  labels := fun t x hx => h'.labels t x (h.labels t x hx)
  grows := h.grows.trans h'.grows
  widens := h.widens.trans h'.widens h.labels
  leaves := fun t lead i ht hi hne =>
    (h'.leaves t lead i (h.labels t _ ht) hi hne).trans (h.leaves t lead i ht hi hne)
  data := fun t ht hn => (h'.data t (h.grows.used t ht) (h.grows.label_eq_none ht hn)).trans
    (h.data t ht hn)
  pml4 := h'.pml4.trans h.pml4

theorem mono (h : Proceeds pages label pm label' pm') (hle : ∀ q, pages q → pages' q) :
    Proceeds pages' label pm label' pm' :=
  ⟨h.shaped, h.labels, h.grows, h.widens,
    fun t lead i ht hi hne => h.leaves t lead i ht hi fun hp => hne (hle _ hp), h.data, h.pml4⟩

/-- Only the record of failures is touched. -/
theorem record (h : Proceeds pages label pm label' pm') (flag : Bool) :
    Proceeds pages label pm label' { pm' with outOfFrames := flag } :=
  ⟨⟨h.shaped.allocated, h.shaped.labelled, h.shaped.clear, h.shaped.writable⟩, h.labels, h.grows,
    h.widens, h.leaves, h.data, h.pml4⟩

/-- A link is written where the walk ended, or is widened. -/
theorem store (pages : Nat → Prop) (h : Shaped label pm) (ht : label t = some (m + 1, lead))
    (hp : e.present = true) (hw : e.readWrite = true)
    (hchild : pageFormat.stops (m + 1) e = false → label e.address = some (m, lead * 512 + i))
    (hkeep : pageFormat.stops (m + 1) (pm.memory t i) = false →
      pageFormat.stops (m + 1) e = false ∧ e.address = (pm.memory t i).address ∧
        ((pm.memory t i).userSupervisor = true → e.userSupervisor = true)) :
    Proceeds pages label pm label { pm with memory := storeWord pm.memory t i e } where
  shaped := h.store ht hp hw hchild
  labels := fun _ _ hx => hx
  grows := Grows.refl _ _
  widens := fun s n k j hs hj hstop => by
    dsimp only
    by_cases hsj : s = t ∧ j = i
    · obtain ⟨rfl, rfl⟩ := hsj
      rw [ht, Option.some.injEq, Prod.mk.injEq, Nat.add_right_cancel_iff] at hs
      obtain ⟨rfl, -⟩ := hs
      obtain ⟨hs', ha', hu'⟩ := hkeep hstop
      rw [storeWord_self]
      exact ⟨hs', ha', fun _ => hw, hu'⟩
    · rw [storeWord_of_ne hsj]
      exact ⟨hstop, rfl, id, id⟩
  leaves := fun s k j hs _ _ => by
    refine storeWord_of_ne ?_
    rintro ⟨rfl, -⟩
    rw [ht] at hs
    simp at hs
  data := fun s _ hn => by
    have hst : s ≠ t := by
      rintro rfl
      rw [ht] at hn
      cases hn
    exact funext fun j => storeWord_of_ne fun hc => hst hc.1
  pml4 := rfl

/-- The entry of the page itself is written. -/
theorem store_leaf (h : Shaped label pm) (ht : label t = some (pageFormat.place 0 page)) :
    Proceeds (· = page) label pm label
      { pm with memory := storeWord pm.memory t (pageFormat.index 0 page) e } where
  shaped := h.store_leaf ht
  labels := fun _ _ hx => hx
  grows := Grows.refl _ _
  widens := fun s n k j hs _ hstop => by
    have hst : s ≠ t := by
      rintro rfl
      rw [ht, Format.place] at hs
      simp at hs
    dsimp only
    rw [storeWord_of_ne fun hc => hst hc.1]
    exact ⟨hstop, rfl, id, id⟩
  leaves := fun s k j hs _ hne => by
    refine storeWord_of_ne ?_
    rintro ⟨rfl, rfl⟩
    rw [ht, Format.place, Option.some.injEq, Prod.mk.injEq] at hs
    obtain ⟨-, rfl⟩ := hs
    exact hne ((Format.lead_mul_add_index 0).trans (by rw [pow_zero, Nat.div_one]))
  data := fun s _ hn => by
    have hst : s ≠ t := by
      rintro rfl
      rw [ht] at hn
      cases hn
    exact funext fun j => storeWord_of_ne fun hc => hst hc.1
  pml4 := rfl

/-- What a free frame is filled with concerns nothing that is in use. -/
private theorem of_update (h : Shaped label pm) (htake : PageManager.TakesFrame pm.frames c frames')
    {label' : Labelling} (hlabels : ∀ t x, label t = some x → label' t = some x)
    (hgrows : Grows label pm.frames label' frames')
    (hs : Shaped label' { pm with
      frames := frames', memory := Function.update pm.memory c words }) :
    Proceeds pages label pm label'
      { pm with frames := frames', memory := Function.update pm.memory c words } := by
  have hused {s : Nat} (hg : pm.frames.bitmap.get s = true) :
      Function.update pm.memory c words s = pm.memory s := by
    refine Function.update_of_ne ?_ _ _
    rintro rfl
    rw [htake.free] at hg
    cases hg
  have hlab {s : Nat} {x : Nat × Nat} (hx : label s = some x) :
      Function.update pm.memory c words s = pm.memory s :=
    hused (h.allocated.used s (by simp [hx]))
  refine ⟨hs, hlabels, hgrows, fun s n k j hx _ hstop => ?_, fun s k j hx _ _ => ?_,
    fun s hg _ => hused hg, rfl⟩
  · dsimp only
    rw [hlab hx]
    exact ⟨hstop, rfl, id, id⟩
  · dsimp only
    rw [hlab hx]

theorem fill (pages : Nat → Prop) (h : Shaped label pm)
    (htake : PageManager.TakesFrame pm.frames c frames') (hwords : Suits label m lead words) :
    Proceeds pages label pm (Function.update label c (some (m, lead)))
      { pm with frames := frames', memory := Function.update pm.memory c words } := by
  have hc := h.allocated.label_eq_none htake
  refine of_update h htake (fun t x hx => ?_) (Grows.label_frame htake _) (h.fill htake hwords)
  exact update_eq_some.mpr (Or.inr ⟨Shaped.ne_of_label hc hx, hx⟩)

theorem fill_frame (pages : Nat → Prop) (h : Shaped label pm)
    (htake : PageManager.TakesFrame pm.frames c frames') :
    Proceeds pages label pm label
      { pm with frames := frames', memory := Function.update pm.memory c words } :=
  of_update h htake (fun _ _ hx => hx) (Grows.take htake) (h.fill_frame htake)

end Proceeds

end Sylphia
