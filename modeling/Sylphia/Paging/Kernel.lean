import Sylphia.Paging.Mapping

/-!
# The kernel's page tables

Ranges of pages, the initial identity mapping, and the translations in every state that
`MapPage` and `AllocateVirtual` can reach from it.
-/

namespace Sylphia

open RadixTree PageTableEntry

/-! ## Ranges of pages -/

/-- The `j`-th page of a range. -/
def rangePage (virtualAddr j : Nat) : Nat := pageOf ((virtualAddr + j * kPageSize4K) % 2 ^ 64)

namespace PageManager

variable {pm : PageManager} {label : Labelling}

theorem mapPage_one (hne : pm.pml4Table ≠ 0) (v p flags : Nat) :
    pm.mapPage v p 1 flags = (pm.mapOne (v % 2 ^ 64) (p % 2 ^ 64) flags).2 := by
  rw [mapPage, if_neg hne, mapLoop]
  dsimp only
  rw [Nat.zero_mul, Nat.add_zero, Nat.add_zero]
  split <;> rfl

/-- One iteration of `AllocateVirtual` ends it for want of a frame, or takes and clears a frame
and has the page mapped to it. -/
theorem allocateLoop_cases (ha : Allocated label pm.frames) (hne : pm.pml4Table ≠ 0)
    (v flags n i : Nat) :
    (pm.frames.bitmap.freeSet = ∅ ∧
      pm.allocateLoop v flags (n + 1) i = (false, { pm with outOfFrames := true })) ∨
    ∃ f frames', TakesFrame pm.frames f frames' ∧ pm.allocateLoop v flags (n + 1) i =
      (mapOne { pm with frames := frames', memory := Function.update pm.memory f fun _ => 0 }
        ((v + i * kPageSize4K) % 2 ^ 64) (f * 4096) flags).2.allocateLoop v flags n (i + 1) := by
  rw [allocateLoop]
  dsimp only
  rcases allocateFrame_cases ha with ⟨hempty, he⟩ | ⟨f, frames', htake, he⟩
  · rw [he]
    exact Or.inl ⟨hempty, rfl⟩
  · obtain ⟨hpos, hf40⟩ := ha.free f htake.free
    have hmod : f * 4096 % 2 ^ 64 = f * 4096 := Nat.mod_eq_of_lt (by omega)
    have hone := @mapPage_one { pm with
      frames := frames', memory := Function.update pm.memory f fun _ => 0 } hne
      ((v + i * kPageSize4K) % 2 ^ 64) (f * 4096) flags
    rw [Nat.mod_mod, hmod] at hone
    rw [he]
    dsimp only
    rw [if_neg (by omega), clearFrame_mul, hone]
    exact Or.inr ⟨f, frames', htake, rfl⟩

/-- The call for a process is the call under its root, between two switches of CR3. -/
theorem allocateVirtualForProcess_eq (pm : PageManager) (cr3 v size flags : Nat) :
    ∃ y z, pm.allocateVirtualForProcess cr3 v size flags =
      ((allocateVirtual { pm with pml4Table := cr3, cr3 := y } v size flags).1,
        { (allocateVirtual { pm with pml4Table := cr3, cr3 := y } v size flags).2 with
          pml4Table := pm.pml4Table
          cr3 := z }) := by
  have hswitch (pm : PageManager) (x : Nat) : ∃ y, pm.switchPageTable x = { pm with cr3 := y } := by
    rw [switchPageTable]
    split
    · exact ⟨pm.cr3, rfl⟩
    · exact ⟨x, rfl⟩
  rw [allocateVirtualForProcess]
  dsimp only
  by_cases hx : cr3 ≠ pm.cr3
  · obtain ⟨y, hy⟩ := hswitch pm cr3
    rw [if_pos hx, if_pos hx, hy]
    obtain ⟨z, hz⟩ := hswitch { (allocateVirtual { pm with pml4Table := cr3, cr3 := y }
      v size flags).2 with pml4Table := pm.pml4Table } pm.cr3
    exact ⟨y, z, by rw [hz]⟩
  · rw [if_neg hx, if_neg hx]
    exact ⟨pm.cr3, (allocateVirtual { pm with pml4Table := cr3, cr3 := pm.cr3 }
      v size flags).2.cr3, rfl⟩

end PageManager

namespace Sound

variable {K : Labelling → (Nat → Nat → PageTableEntry) → Prop} {root : Nat}
  {label : Labelling} {pm : PageManager}

/-- What mapping the pages `i, .., i + n - 1` of a range does. -/
structure MapsRange (K : Labelling → (Nat → Nat → PageTableEntry) → Prop)
    (root virtualAddr physicalAddr flags n i : Nat) (label : Labelling) (pm : PageManager)
    (label' : Labelling) (pm' : PageManager) : Prop where
  sound : Sound K root label' pm'
  labels : ∀ t x, label t = some x → label' t = some x
  grows : Grows label pm.frames label' pm'.frames
  mapped : ∀ j, i ≤ j → j < i + n →
    (∀ k, j < k → k < i + n → rangePage virtualAddr k ≠ rangePage virtualAddr j) →
    pageFormat.lookup pm'.memory 3 root (rangePage virtualAddr j) =
      PageManager.granted ((physicalAddr + j * kPageSize4K) % 2 ^ 64) flags
  others : ∀ r page, label r = some (pageFormat.place 3 page) →
    (∀ j, i ≤ j → j < i + n → page ≠ rangePage virtualAddr j) →
    pageFormat.lookup pm'.memory 3 r page = pageFormat.lookup pm.memory 3 r page
  pml4 : pm'.pml4Table = pm.pml4Table
  before : pm.outOfFrames = false

/-- The loop of `MapPage`, when frames do not run out. -/
theorem mapLoop {v p flags : Nat} (n i : Nat)
    (hK : ∀ j, i ≤ j → j < i + n → Discipline K (hasFlag flags kUser) (rangePage v j) root)
    (h : Sound K root label pm) (hpml4 : pm.pml4Table = root * 4096)
    (hout : (pm.mapLoop v p flags n i).outOfFrames = false) :
    ∃ label', MapsRange K root v p flags n i label pm label' (pm.mapLoop v p flags n i) := by
  induction n generalizing i pm label with
  | zero =>
    exact ⟨label, h, fun _ _ hx => hx, Grows.refl _ _, fun j hi hj => by omega, fun _ _ _ _ => rfl,
      rfl, hout⟩
  | succ n ih =>
    rw [PageManager.mapLoop] at hout ⊢
    dsimp only at hout ⊢
    have hone : (pm.mapOne ((v + i * kPageSize4K) % 2 ^ 64) ((p + i * kPageSize4K) % 2 ^ 64)
        flags).2.outOfFrames = false := by
      split at hout
      · exact PageManager.outOfFrames_mapLoop hout
      · exact hout
    obtain ⟨label₁, pm₁, c, he, hmaps⟩ := h.mapOne (hK i le_rfl (by omega)) hpml4 hone
    rw [he] at hout ⊢
    dsimp only at hout ⊢
    rw [if_pos rfl] at hout ⊢
    obtain ⟨label', hrest⟩ := ih (i + 1) (fun j hj hjn => hK j (by omega) (by omega))
      hmaps.sound (hmaps.pml4.trans hpml4) hout
    refine ⟨label', hrest.sound, fun t x hx => hrest.labels t x (hmaps.labels t x hx),
      hmaps.grows.trans hrest.grows, ?_, ?_, hrest.pml4.trans hmaps.pml4, hmaps.before⟩
    · intro j hi hj hlast
      rcases Nat.eq_or_lt_of_le hi with rfl | hlt
      · have hroot : label₁ root = some (pageFormat.place 3 (rangePage v i)) :=
          hmaps.sound.root_place (Nat.mod_lt _ (by decide))
        rw [hrest.others root _ hroot fun k hk hkn =>
          (hlast k (by omega) (by omega)).symm]
        exact hmaps.mapped
      · exact hrest.mapped j hlt (by omega) fun k hk hkn => hlast k hk (by omega)
    · intro r page hr hne
      rw [hrest.others r page (hmaps.labels r _ hr) fun j hj hjn => hne j (by omega) (by omega)]
      exact hmaps.others r page hr (hne i le_rfl (by omega))

theorem root_ne_zero (h : Sound K root label pm) : root ≠ 0 := by
  rintro rfl
  have hroot := h.rooted
  rw [h.allocated.null] at hroot
  cases hroot

/-- `MapPage`, when frames do not run out. -/
theorem mapPage {v p flags count : Nat}
    (hK : ∀ j < count, Discipline K (hasFlag flags kUser) (rangePage v j) root)
    (h : Sound K root label pm) (hpml4 : pm.pml4Table = root * 4096)
    (hout : (pm.mapPage v p count flags).outOfFrames = false) :
    ∃ label', MapsRange K root v p flags count 0 label pm label' (pm.mapPage v p count flags) := by
  have hne : pm.pml4Table ≠ 0 := by
    have hroot := h.root_ne_zero
    omega
  rw [PageManager.mapPage, if_neg hne] at hout ⊢
  exact h.mapLoop count 0 (fun j _ hj => hK j (by omega)) hpml4 hout

/-- What `AllocateVirtual` does for the pages `i, .., i + n - 1` of a range: each is mapped
to a frame of its own that was free and is no table. -/
structure AllocatesRange (K : Labelling → (Nat → Nat → PageTableEntry) → Prop)
    (root virtualAddr flags n i : Nat) (label : Labelling) (pm : PageManager)
    (label' : Labelling) (pm' : PageManager) : Prop where
  sound : Sound K root label' pm'
  labels : ∀ t x, label t = some x → label' t = some x
  grows : Grows label pm.frames label' pm'.frames
  mapped : ∀ j, i ≤ j → j < i + n →
    (∀ k, j < k → k < i + n → rangePage virtualAddr k ≠ rangePage virtualAddr j) →
    ∃ f, pm.frames.bitmap.get f = false ∧ pm'.frames.bitmap.get f = true ∧ label' f = none ∧
      pageFormat.lookup pm'.memory 3 root (rangePage virtualAddr j) =
        PageManager.granted (f * 4096) flags
  others : ∀ r page, label r = some (pageFormat.place 3 page) →
    (∀ j, i ≤ j → j < i + n → page ≠ rangePage virtualAddr j) →
    pageFormat.lookup pm'.memory 3 r page = pageFormat.lookup pm.memory 3 r page
  links : pageFormat.Extends label pm.memory pm'.memory
  pml4 : pm'.pml4Table = pm.pml4Table
  before : pm.outOfFrames = false

/-- A frame is taken and cleared before it is mapped. -/
private theorem takeFrame {c : Nat} {frames' : MemoryManager} {flags page : Nat}
    (hK : Discipline K (hasFlag flags kUser) page root) (h : Sound K root label pm)
    (htake : PageManager.TakesFrame pm.frames c frames') :
    Sound K root label { pm with
      frames := frames', memory := Function.update pm.memory c fun _ => 0 } where
  tables := h.tables.fill_frame (h.allocated.label_eq_none htake) _
  allocated := h.allocated.take htake
  kept := hK.frame h.kept (h.allocated.label_eq_none htake)
  rooted := h.rooted

/-- One iteration of `AllocateVirtual`: it takes and clears a frame, if there is one, and
maps the page to it. -/
theorem allocateOne_cases {v flags n i : Nat}
    (hK : Discipline K (hasFlag flags kUser) (rangePage v i) root)
    (h : Sound K root label pm) (hpml4 : pm.pml4Table = root * 4096) :
    (pm.frames.bitmap.freeSet = ∅ ∧
      pm.allocateLoop v flags (n + 1) i = (false, { pm with outOfFrames := true })) ∨
    ∃ f pm₁, pm.frames.bitmap.get f = false ∧ pm₁.frames.bitmap.get f = true ∧ label f = none ∧
      Prepares K root (rangePage v i) label pm label pm₁ ∧
      pm.allocateLoop v flags (n + 1) i =
        (pm₁.mapOne ((v + i * kPageSize4K) % 2 ^ 64) (f * 4096) flags).2.allocateLoop v flags n
          (i + 1) := by
  have hroot := h.root_ne_zero
  refine (PageManager.allocateLoop_cases h.allocated (by omega) v flags n i).imp_right ?_
  rintro ⟨f, frames', htake, he⟩
  have hnone := h.allocated.label_eq_none htake
  exact ⟨f, _, htake.free, by simp [htake.taken], hnone, ⟨h.takeFrame hK htake,
    Keeps.fill_frame h.tables.labelled hnone _, Grows.take htake,
    Along.fill_frame h.allocated htake.free _ rfl, rfl, rfl⟩, he⟩

/-- One iteration of `AllocateVirtual`, when frames do not run out: the page is mapped to a
frame that was free and is no table. -/
theorem allocateOne {v flags n i : Nat}
    (hK : Discipline K (hasFlag flags kUser) (rangePage v i) root)
    (h : Sound K root label pm) (hpml4 : pm.pml4Table = root * 4096)
    (hout : (pm.allocateLoop v flags (n + 1) i).2.outOfFrames = false) :
    ∃ f label' pm' c, pm.frames.bitmap.get f = false ∧ pm'.frames.bitmap.get f = true ∧
      label' f = none ∧ MapsPage K root (rangePage v i) (f * 4096) flags label pm label' pm' c ∧
      pm.allocateLoop v flags (n + 1) i = pm'.allocateLoop v flags n (i + 1) := by
  rcases h.allocateOne_cases hK hpml4 with ⟨-, he⟩ | ⟨f, pm₁, hfree, hused, hnone, hprep, he⟩
  · rw [he] at hout
    cases hout
  · rw [he] at hout ⊢
    obtain ⟨label', pm', c, hmap, hmaps⟩ := hprep.sound.mapOne hK (hprep.pml4.trans hpml4)
      (PageManager.outOfFrames_allocateLoop hout)
    rw [hmap]
    exact ⟨f, label', pm', c, hfree, hmaps.grows.used f hused,
      hmaps.grows.label_eq_none hused hnone,
      hmaps.after (Nat.mod_lt _ (by decide)) hprep, rfl⟩

/-- The loop of `AllocateVirtual`, when frames do not run out. -/
theorem allocateLoop {v flags : Nat} (n i : Nat)
    (hK : ∀ j, i ≤ j → j < i + n → Discipline K (hasFlag flags kUser) (rangePage v j) root)
    (h : Sound K root label pm) (hpml4 : pm.pml4Table = root * 4096)
    (hout : (pm.allocateLoop v flags n i).2.outOfFrames = false) :
    ∃ label' pm', pm.allocateLoop v flags n i = (true, pm') ∧
      AllocatesRange K root v flags n i label pm label' pm' := by
  induction n generalizing i pm label with
  | zero =>
    exact ⟨label, pm, rfl, h, fun _ _ hx => hx, Grows.refl _ _, fun j hi hj => by omega,
      fun _ _ _ _ => rfl, fun _ _ _ _ _ _ hs => ⟨hs, rfl⟩, rfl, hout⟩
  | succ n ih =>
    obtain ⟨f, label₁, pm₁, c, hfree, hused, hnone, hmaps, he⟩ :=
      h.allocateOne (hK i le_rfl (by omega)) hpml4 hout
    rw [he] at hout ⊢
    obtain ⟨label', pm', heq, hrest⟩ := ih (i + 1) (fun j hj hjn => hK j (by omega) (by omega))
      hmaps.sound (hmaps.pml4.trans hpml4) hout
    refine ⟨label', pm', heq, hrest.sound, fun t x hx => hrest.labels t x (hmaps.labels t x hx),
      hmaps.grows.trans hrest.grows, ?_, ?_, hmaps.along.links.trans hrest.links hmaps.labels,
      hrest.pml4.trans hmaps.pml4, hmaps.before⟩
    · intro j hi hj hlast
      rcases Nat.eq_or_lt_of_le hi with rfl | hlt
      · have hroot : label₁ root = some (pageFormat.place 3 (rangePage v i)) :=
          hmaps.sound.root_place (Nat.mod_lt _ (by decide))
        refine ⟨f, hfree, hrest.grows.used f hused, hrest.grows.label_eq_none hused hnone, ?_⟩
        rw [hrest.others root _ hroot fun k hk hkn => (hlast k (by omega) (by omega)).symm]
        exact hmaps.mapped
      · obtain ⟨g, hg, hrest'⟩ := hrest.mapped j hlt (by omega) fun k hk hkn =>
          hlast k hk (by omega)
        refine ⟨g, ?_, hrest'⟩
        cases hfg : pm.frames.bitmap.get g with
        | false => rfl
        | true =>
          rw [hmaps.grows.used g hfg] at hg
          cases hg
    · intro r page hr hne
      rw [hrest.others r page (hmaps.labels r _ hr) fun j hj hjn => hne j (by omega) (by omega)]
      exact hmaps.others r page hr (hne i le_rfl (by omega))

end Sound

/-! ## The identity mapping -/

/-- The page directory of the `n`-th gigabyte. -/
def identityTable (n k : Nat) : PageTableEntry :=
  if k < 512 then PageManager.identityEntry n k 0 else 0

theorem fields_identityTable {n k : Nat} (hn : n < 64) (hk : k < 512) :
    fields (identityTable n k) = ⟨true, true, true, true, n * 2 ^ 18 + k * 2 ^ 9⟩ := by
  have haddr : (n * 1024 * 1024 * 1024 + k * 2 * 1024 * 1024) >>> 12 % 2 ^ 40 =
      n * 2 ^ 18 + k * 2 ^ 9 := by
    rw [Nat.shiftRight_eq_div_pow]
    omega
  rw [identityTable, if_pos hk, PageManager.identityEntry, fields_setUserSupervisor,
    fields_setHugePage, fields_setReadWrite, fields_setPresent, fields_setAddress, haddr]

theorem ends_identityTable {n : Nat} (hn : n < 64) : Ends 1 (identityTable n) := by
  refine Or.inr fun j hj => Or.inr ?_
  obtain ⟨hp, hw, -, hh, ha⟩ := Fields.mk.inj (fields_identityTable hn hj)
  exact ⟨rfl, hp, hw, hh, by rw [ha]; omega⟩

/-- The tables after `n` gigabytes have been mapped by `Initialize`. -/
structure Booted (n root pdp : Nat) (label : Labelling) (pm : PageManager) : Prop where
  tables : Tables label pm.memory
  allocated : Allocated label pm.frames
  oneRoot : OneRoot label pm.memory root
  rooted : label root = some (3, 0)
  pdpLabel : label pdp = some (2, 0)
  pdpOnly : ∀ t k, label t = some (2, k) → t = pdp
  noTables : ∀ t k, label t ≠ some (0, k)
  /-- The link of the root. -/
  rootLink : (pm.memory root 0).present = true
  links : ∀ j < n, (pm.memory pdp j).present = true
  rest : ∀ j, n ≤ j → j < 512 → pm.memory pdp j = 0
  directories : ∀ t k j, label t = some (1, k) → j < 512 → (pm.memory t j).present = true
  allUser : AllUser label pm.memory
  pml4 : pm.pml4Table = root * 4096

/-- The page directories map their gigabytes to themselves. -/
def IdentityDirectories (label : Labelling) (memory : Nat → Nat → PageTableEntry) : Prop :=
  ∀ t k j, label t = some (1, k) → j < 512 →
    fields (memory t j) = ⟨true, true, true, true, k * 2 ^ 18 + j * 2 ^ 9⟩

namespace Booted

variable {n root pdp : Nat} {label : Labelling} {pm : PageManager}

/-- The table of the next gigabyte, filled and linked. -/
theorem link (h : Booted n root pdp label pm) (hn : n < 64) {d : Nat} {frames' : MemoryManager}
    (htake : PageManager.TakesFrame pm.frames d frames') :
    Booted (n + 1) root pdp (Function.update label d (some (1, 0 * 512 + n)))
      { pm with
        frames := frames'
        memory := storeWord (Function.update pm.memory d (identityTable n)) pdp n
          (newLink d true) } := by
  have hd := h.allocated.label_eq_none htake
  have hd40 := (h.allocated.free d htake.free).2
  have hne {t : Nat} {x : Nat × Nat} (ht : label t = some x) : t ≠ d := by
    rintro rfl
    rw [hd] at ht
    cases ht
  have hfields {k : Nat} (hk : k < 512) := fields_identityTable hn hk
  have hf := fields_newLink hd40 true
  have hu : (newLink d true).userSupervisor = true := congrArg Fields.userSupervisor hf
  have hmem {t : Nat} (ht : t ≠ d) (htp : t ≠ pdp) (j : Nat) :
      storeWord (Function.update pm.memory d (identityTable n)) pdp n (newLink d true) t j =
        pm.memory t j := by
    rw [storeWord_of_ne fun hc => htp hc.1, Function.update_of_ne ht]
  have hrootpdp : root ≠ pdp := by
    rintro rfl
    have hr := h.rooted
    rw [h.pdpLabel] at hr
    simp at hr
  refine ⟨?_, h.allocated.label_frame htake _, ?_, ?_, ?_, ?_, ?_, ?_, ?_, ?_, ?_, ?_, h.pml4⟩
  · refine link_tables h.tables h.pdpLabel (by omega) hd (ends_identityTable hn)
      (by rw [hu]; exact hf) (fun _ _ _ => hu) fun _ => Or.inr fun g m k i hg hi hs _ => ?_
    exact h.allUser g m k i hg hi (stops_eq_false.mp hs).1
  · refine h.oneRoot.link h.pdpLabel (by omega) ?_ hd _ (stops_of_fields hf)
      (congrArg Fields.address hf)
    exact stops_of_absent (by rw [h.rest n le_rfl (by omega)]; decide)
  · rw [Function.update_of_ne (hne h.rooted), h.rooted]
  · rw [Function.update_of_ne (hne h.pdpLabel), h.pdpLabel]
  · intro t k ht
    rcases update_eq_some.mp ht with ⟨-, hx⟩ | ⟨-, ht⟩
    · simp at hx
    · exact h.pdpOnly t k ht
  · intro t k ht
    rcases update_eq_some.mp ht with ⟨-, hx⟩ | ⟨-, ht⟩
    · simp at hx
    · exact h.noTables t k ht
  · dsimp only
    rw [hmem (hne h.rooted) hrootpdp]
    exact h.rootLink
  · intro j hj
    dsimp only
    by_cases hjn : j = n
    · rw [hjn, storeWord_self]
      exact congrArg Fields.present hf
    · rw [storeWord_of_ne fun hc => hjn hc.2, Function.update_of_ne (hne h.pdpLabel)]
      exact h.links j (by omega)
  · intro j hj hj512
    dsimp only
    rw [storeWord_of_ne fun hc => by omega, Function.update_of_ne (hne h.pdpLabel)]
    exact h.rest j (by omega) hj512
  · intro t k j ht hj
    dsimp only
    by_cases htd : t = d
    · subst htd
      rw [storeWord_of_ne fun hc => (hne h.pdpLabel) hc.1.symm, Function.update_self]
      exact congrArg Fields.present (hfields hj)
    · rw [Function.update_of_ne htd] at ht
      have htp : t ≠ pdp := by
        rintro rfl
        rw [h.pdpLabel] at ht
        simp at ht
      rw [hmem htd htp]
      exact h.directories t k j ht hj
  · refine (h.allUser.fill fun _ j hj _ => ?_).store fun _ _ _ _ _ => hu
    exact congrArg Fields.userSupervisor (hfields hj)

theorem link_identity (h : Booted n root pdp label pm) (hn : n < 64) {d : Nat}
    (hd : label d = none) (hi : IdentityDirectories label pm.memory) (e : PageTableEntry) :
    IdentityDirectories (Function.update label d (some (1, 0 * 512 + n)))
      (storeWord (Function.update pm.memory d (identityTable n)) pdp n e) := by
  intro t k j ht hj
  have hpd : pdp ≠ d := by
    rintro rfl
    rw [h.pdpLabel] at hd
    cases hd
  by_cases htd : t = d
  · subst htd
    rw [Function.update_self, Option.some.injEq, Prod.mk.injEq] at ht
    obtain rfl : k = n := by omega
    rw [storeWord_of_ne fun hc => hpd hc.1.symm, Function.update_self]
    exact fields_identityTable hn hj
  · rw [Function.update_of_ne htd] at ht
    have htp : t ≠ pdp := by
      rintro rfl
      rw [h.pdpLabel] at ht
      simp at ht
    rw [storeWord_of_ne fun hc => htp hc.1, Function.update_of_ne htd]
    exact hi t k j ht hj

/-- Nothing of this is in CR3. -/
theorem setCr3 {label₀ : Labelling} {frames₀ : MemoryManager} (h : Booted n root pdp label pm)
    (hi : IdentityDirectories label pm.memory) (hg : Grows label₀ frames₀ label pm.frames)
    (cr3 : Nat) :
    Booted n root pdp label { pm with cr3 } ∧
      IdentityDirectories label ({ pm with cr3 } : PageManager).memory ∧
      Grows label₀ frames₀ label ({ pm with cr3 } : PageManager).frames :=
  ⟨⟨h.tables, h.allocated, h.oneRoot, h.rooted, h.pdpLabel, h.pdpOnly, h.noTables, h.rootLink,
    h.links, h.rest, h.directories, h.allUser, h.pml4⟩, hi, hg⟩

/-- Before the first gigabyte there is no page directory. -/
theorem no_directories (h : Booted 0 root pdp label pm) :
    IdentityDirectories label pm.memory := by
  intro t k j ht
  obtain ⟨g, hg, hs, -⟩ := h.oneRoot.linked t 1 k ht (by decide)
  rw [h.pdpOnly g _ hg, h.rest _ (Nat.zero_le _) (Nat.mod_lt k (by decide)), stops_eq_false] at hs
  exact absurd hs.1 (by decide)

/-- One gigabyte of the loop of `Initialize`, when frames do not run out. -/
private theorem mapGigabytes_succ (h : Booted n root pdp label (pm.mapGigabytes (pdp * 4096) n))
    (hn : n < 512) (hout : (pm.mapGigabytes (pdp * 4096) (n + 1)).outOfFrames = false) :
    ∃ d frames', PageManager.TakesFrame (pm.mapGigabytes (pdp * 4096) n).frames d frames' ∧
      pm.mapGigabytes (pdp * 4096) (n + 1) = { pm.mapGigabytes (pdp * 4096) n with
        frames := frames'
        memory := storeWord (Function.update (pm.mapGigabytes (pdp * 4096) n).memory d
          (identityTable n)) pdp n (newLink d true) } := by
  rw [PageManager.mapGigabytes] at hout ⊢
  dsimp only at hout ⊢
  rw [PageManager.outOfFrames_fillTable, PageManager.outOfFrames_setEntry] at hout
  obtain ⟨d, frames', htake, -, he⟩ := PageManager.allocateTable_eq h.allocated hout
  have hpd : pdp ≠ d := by
    rintro rfl
    have hl := h.pdpLabel
    rw [h.allocated.label_eq_none htake] at hl
    cases hl
  refine ⟨d, frames', htake, ?_⟩
  rw [he]
  dsimp only
  rw [PageManager.entry_mul, PageManager.setEntry_mul, PageManager.fillTable_mul]
  dsimp only
  rw [Function.update_of_ne hpd, h.rest n le_rfl hn]
  congr 1
  -- The directory is linked before it is filled; the two writes are to different tables.
  funext t k
  by_cases htd : t = d
  · subst htd
    rw [Function.update_self, storeWord_of_ne fun hc => hpd hc.1.symm, Function.update_self,
      storeWord_of_ne fun hc => hpd hc.1.symm, Function.update_self, identityTable]
  · rw [Function.update_of_ne htd]
    by_cases htp : t = pdp ∧ k = n
    · rw [htp.1, htp.2, storeWord_self, storeWord_self]
      rfl
    · rw [storeWord_of_ne htp, storeWord_of_ne htp, Function.update_of_ne htd,
        Function.update_of_ne htd]

/-- The loop of `Initialize`, when frames do not run out. -/
theorem mapGigabytes (h : Booted 0 root pdp label pm) (hn : n ≤ 64)
    (hout : (pm.mapGigabytes (pdp * 4096) n).outOfFrames = false) :
    ∃ label', Booted n root pdp label' (pm.mapGigabytes (pdp * 4096) n) ∧
      IdentityDirectories label' (pm.mapGigabytes (pdp * 4096) n).memory ∧
      Grows label pm.frames label' (pm.mapGigabytes (pdp * 4096) n).frames := by
  induction n with
  | zero => exact ⟨label, h, h.no_directories, Grows.refl _ _⟩
  | succ n ih =>
    have hbefore : (pm.mapGigabytes (pdp * 4096) n).outOfFrames = false := by
      rw [PageManager.mapGigabytes] at hout
      dsimp only at hout
      rw [PageManager.outOfFrames_fillTable, PageManager.outOfFrames_setEntry] at hout
      exact PageManager.outOfFrames_allocateTable hout
    obtain ⟨label₁, h₁, hi₁, hg₁⟩ := ih (by omega) hbefore
    obtain ⟨d, frames', htake, he⟩ := mapGigabytes_succ h₁ (by omega) hout
    rw [he]
    exact ⟨_, h₁.link (by omega) htake,
      h₁.link_identity (by omega) (h₁.allocated.label_eq_none htake) hi₁ _,
      hg₁.trans (Grows.label_frame htake _)⟩

end Booted

/-- Before `Initialize` the free frames are neither frame 0 nor beyond the 52 bits of a
physical address. -/
structure Bootable (pm : PageManager) : Prop where
  free : ∀ f, pm.frames.bitmap.get f = false → 0 < f ∧ f < 2 ^ 40
  frames : pm.outOfFrames = false

private theorem outOfFrames_mapGigabytes {pm : PageManager} {pdp n : Nat}
    (h : (pm.mapGigabytes pdp n).outOfFrames = false) : pm.outOfFrames = false := by
  induction n with
  | zero => exact h
  | succ n ih =>
    rw [PageManager.mapGigabytes] at h
    dsimp only at h
    rw [PageManager.outOfFrames_fillTable, PageManager.outOfFrames_setEntry] at h
    exact ih (PageManager.outOfFrames_allocateTable h)

/-- The root and the table below it, before the first gigabyte is mapped. -/
private theorem booted_zero {pm : PageManager} {r c : Nat} {frames₁ frames₂ : MemoryManager}
    (h : Allocated (fun _ => none) pm.frames) (hr : PageManager.TakesFrame pm.frames r frames₁)
    (hc : PageManager.TakesFrame frames₁ c frames₂) :
    Booted 0 r c (Function.update (Function.update (fun _ => none) r (some (3, 0))) c
        (some (2, 0 * 512 + 0)))
      { pm with
        frames := frames₂
        memory := storeWord (Function.update (Function.update pm.memory r fun _ => 0) c fun _ => 0)
          r 0 (newLink c true)
        pml4Table := r * 4096 } := by
  have hr1 := h.label_frame hr (3, 0)
  have hcnone := hr1.label_eq_none hc
  have hc40 := (hr1.free c hc.free).2
  have hrc : r ≠ c := by
    rintro rfl
    rw [Function.update_self] at hcnone
    cases hcnone
  have hzero : Ends 3 fun _ => 0 := Or.inr fun _ _ => Or.inl rfl
  have htables : Tables (Function.update (fun _ => none) r (some (3, 0)))
      (Function.update pm.memory r fun _ => 0) := (Tables.empty pm.memory).fill rfl hzero 0
  have hroot : Function.update (fun _ => none : Labelling) r (some (3, 0)) r = some (2 + 1, 0) :=
    Function.update_self ..
  have hf := fields_newLink hc40 true
  have hu : (newLink c true).userSupervisor = true := congrArg Fields.userSupervisor hf
  have hlabel {t : Nat} {x : Nat × Nat} (ht : Function.update (Function.update
      (fun _ => none : Labelling) r (some (3, 0))) c (some (2, 0 * 512 + 0)) t = some x) :
      (t = c ∧ x = (2, 0)) ∨ (t = r ∧ x = (3, 0)) := by
    rcases update_eq_some.mp ht with hc | ⟨-, ht⟩
    · exact Or.inl hc
    · rcases update_eq_some.mp ht with hr | ⟨-, ht⟩
      · exact Or.inr hr
      · cases ht
  have hclear (j : Nat) : storeWord (Function.update (Function.update pm.memory r fun _ => 0) c
      fun _ => 0) r 0 (newLink c true) c j = 0 := by
    rw [storeWord_of_ne fun hx => hrc hx.1.symm, Function.update_self]
  refine ⟨?_, hr1.label_frame hc _, ?_, ?_, ?_, ?_, ?_, ?_, fun j hj => by omega, ?_, ?_, ?_, rfl⟩
  · refine link_tables htables hroot (by omega) hcnone (Or.inr fun _ _ => Or.inl rfl)
      (by rw [hu]; exact hf) (fun _ _ _ => hu) fun _ => Or.inr fun g m k i hg hi hs ha => ?_
    -- The root is clear, so no link leads to it.
    by_cases hgr : g = r
    · subst hgr
      rw [Function.update_self, stops_eq_false] at hs
      exact absurd hs.1 (by decide)
    · rw [Function.update_of_ne hgr] at hg
      cases hg
  · refine (OneRoot.single _ r).link hroot (by omega) (stops_of_absent ?_) hcnone _
      (stops_of_fields hf)
      (congrArg Fields.address hf)
    rw [Function.update_self]
    decide
  · rw [Function.update_of_ne hrc, Function.update_self]
  · rw [Function.update_self]
  · intro t k ht
    rcases hlabel ht with ⟨htc, -⟩ | ⟨-, hx⟩
    · exact htc
    · simp at hx
  · intro t k ht
    rcases hlabel ht with ⟨-, hx⟩ | ⟨-, hx⟩ <;> simp at hx
  · dsimp only
    rw [storeWord_self]
    exact congrArg Fields.present hf
  · intro j _ _
    exact hclear j
  · intro t k j ht
    rcases hlabel ht with ⟨-, hx⟩ | ⟨-, hx⟩ <;> simp at hx
  · intro t m k j ht _ hp
    dsimp only at hp ⊢
    rcases hlabel ht with ⟨rfl, -⟩ | ⟨rfl, -⟩
    · rw [hclear j] at hp
      exact absurd hp (by decide)
    · by_cases hj : j = 0
      · rw [hj, storeWord_self]
        exact hu
      · rw [storeWord_of_ne fun hx => hj hx.2, Function.update_of_ne hrc,
          Function.update_self] at hp
        exact absurd hp (by decide)

/-- `Initialize` up to the first gigabyte, when frames do not run out. -/
private theorem initializePaging_eq {pm pm' : PageManager}
    (ha : Allocated (fun _ => none) pm.frames) (hi : pm.initializePaging = some pm')
    (hout : pm'.outOfFrames = false) :
    ∃ r c frames₁ frames₂, PageManager.TakesFrame pm.frames r frames₁ ∧
      PageManager.TakesFrame frames₁ c frames₂ ∧
      pm' = { PageManager.mapGigabytes { pm with
        frames := frames₂
        memory := storeWord (Function.update (Function.update pm.memory r fun _ => 0) c fun _ => 0)
          r 0 (newLink c true)
        pml4Table := r * 4096 } (c * 4096) 64 with cr3 := r * 4096 } := by
  rw [PageManager.initializePaging] at hi
  dsimp only at hi
  split at hi
  · cases hi
  · obtain rfl := Option.some.inj hi
    dsimp only at hout
    have hout₂ := outOfFrames_mapGigabytes hout
    rw [PageManager.outOfFrames_setEntry] at hout₂
    have hout₁ := PageManager.outOfFrames_allocateTable hout₂
    dsimp only at hout₁
    obtain ⟨r, frames₁, hr, -, he⟩ := PageManager.allocateTable_eq ha hout₁
    rw [he] at hout₂ ⊢
    dsimp only at hout₂ ⊢
    have ha₁ := ha.label_frame hr (3, 0)
    obtain ⟨c, frames₂, hc, -, he₂⟩ := PageManager.allocateTable_eq ha₁ hout₂
    have hrc : r ≠ c := by
      rintro rfl
      have hnone := ha₁.label_eq_none hc
      rw [Function.update_self] at hnone
      cases hnone
    refine ⟨r, c, frames₁, frames₂, hr, hc, ?_⟩
    rw [he₂]
    dsimp only
    rw [PageManager.entry_mul, PageManager.setEntry_mul]
    dsimp only
    have hlink : PageManager.linkTable 0 (c * 4096) = newLink c true := rfl
    rw [Function.update_of_ne hrc, Function.update_self, hlink]

/-- `Initialize`, when frames do not run out. -/
theorem Bootable.initializePaging {pm pm' : PageManager} (h : Bootable pm)
    (hi : pm.initializePaging = some pm') (hout : pm'.outOfFrames = false) :
    ∃ root pdp label, Booted 64 root pdp label pm' ∧ IdentityDirectories label pm'.memory ∧
      Grows (fun _ => none) pm.frames label pm'.frames := by
  have ha : Allocated (fun _ => none) pm.frames := ⟨rfl, fun t ht => absurd rfl ht, h.free⟩
  obtain ⟨r, c, frames₁, frames₂, hr, hc, rfl⟩ := initializePaging_eq ha hi hout
  dsimp only at hout
  obtain ⟨label, hlabel, hident, hgrows⟩ := (booted_zero ha hr hc).mapGigabytes le_rfl hout
  have hboth : Grows (fun _ => none) pm.frames (Function.update (Function.update (fun _ => none) r
      (some (3, 0))) c (some (2, 0 * 512 + 0))) frames₂ :=
    (Grows.label_frame hr _).trans (Grows.label_frame hc _)
  exact ⟨r, c, label, hlabel.setCr3 hident (hboth.trans hgrows) (r * 4096)⟩

/-- The states that `MapPage` and `AllocateVirtual` reach after `Initialize`. -/
inductive KernelReachable : PageManager → Prop
  | boot {pm pm' : PageManager} : Bootable pm → pm.initializePaging = some pm' →
      KernelReachable pm'
  | mapPage {pm : PageManager} (v p count flags : Nat) : KernelReachable pm →
      KernelReachable (pm.mapPage v p count flags)
  | allocateVirtual {pm : PageManager} (v size flags : Nat) : KernelReachable pm →
      KernelReachable (pm.allocateVirtual v size flags).2

/-- In every reachable state the tables form one tree under the kernel's root. -/
theorem KernelReachable.sound {pm : PageManager} (h : KernelReachable pm)
    (hout : pm.outOfFrames = false) :
    ∃ root label, Sound (fun l m => OneRoot l m root) root label pm ∧
      pm.pml4Table = root * 4096 := by
  induction h with
  | boot hb hi =>
    obtain ⟨root, pdp, label, hbooted, -, -⟩ := hb.initializePaging hi hout
    exact ⟨root, label, ⟨hbooted.tables, hbooted.allocated, hbooted.oneRoot, hbooted.rooted⟩,
      hbooted.pml4⟩
  | mapPage v p count flags _ ih =>
    obtain ⟨root, label, hsound, hpml4⟩ := ih (PageManager.outOfFrames_mapPage hout)
    obtain ⟨label', hmaps⟩ := hsound.mapPage (fun _ _ => oneRoot_discipline _ _ _) hpml4 hout
    exact ⟨root, label', hmaps.sound, hmaps.pml4.trans hpml4⟩
  | allocateVirtual v size flags _ ih =>
    rw [PageManager.allocateVirtual] at hout ⊢
    split at hout
    · next hv =>
      rw [if_pos hv]
      exact ih hout
    · next hv =>
      rw [if_neg hv]
      obtain ⟨root, label, hsound, hpml4⟩ := ih (PageManager.outOfFrames_allocateLoop hout)
      obtain ⟨label', pm', he, halloc⟩ :=
        hsound.allocateLoop _ 0 (fun _ _ _ => oneRoot_discipline _ _ _) hpml4 hout
      rw [he]
      exact ⟨root, label', halloc.sound, halloc.pml4.trans hpml4⟩

theorem rangePage_eq (v j : Nat) : rangePage v j = pageOf (v + j * 4096) := by
  rw [rangePage, pageOf, pageOf, kPageSize4K]
  omega

/-- After `MapPage`, in any reachable state, the pages of the range have exactly the
translations asked for, and every other page has the one it had. -/
theorem mapPage_translate {pm : PageManager} (h : KernelReachable pm) {v p count flags : Nat}
    (hv : v % 4096 = 0) (hp : p % 4096 = 0) (hbound : p + count * 4096 ≤ 2 ^ 52)
    (hdistinct : ∀ i < count, ∀ j < count,
      (v + i * 4096) % 2 ^ 48 = (v + j * 4096) % 2 ^ 48 → i = j)
    (hout : (pm.mapPage v p count flags).outOfFrames = false) :
    (∀ i < count, translate (pm.mapPage v p count flags).memory
        (pm.mapPage v p count flags).pml4Table (v + i * 4096) =
      ⟨(p + i * 4096) / 4096, hasFlag flags kPresent, hasFlag flags kWritable,
        hasFlag flags kUser⟩) ∧
    ∀ w, (∀ i < count, pageOf w ≠ pageOf (v + i * 4096)) →
      translate (pm.mapPage v p count flags).memory (pm.mapPage v p count flags).pml4Table w =
        translate pm.memory pm.pml4Table w := by
  obtain ⟨root, label, hsound, hpml4⟩ := h.sound (PageManager.outOfFrames_mapPage hout)
  obtain ⟨label', hmaps⟩ := hsound.mapPage (fun _ _ => oneRoot_discipline _ _ _) hpml4 hout
  have hdiv : root * 4096 / 4096 = root := Nat.mul_div_cancel root (by decide)
  rw [hmaps.pml4, hpml4]
  constructor
  · intro i hi
    have hmapped := hmaps.mapped i (Nat.zero_le i) (by omega) fun k hk hkn hc => by
      rw [rangePage_eq, rangePage_eq, pageOf, pageOf] at hc
      have := hdistinct k (by omega) i hi (by omega)
      omega
    rw [translate, translatePage, hdiv, ← rangePage_eq, hmapped, PageManager.granted_mod,
      PageManager.granted, kPageSize4K, Nat.mod_eq_of_lt (by omega)]
  · intro w hw
    have hroot : label root = some (pageFormat.place 3 (pageOf w)) :=
      hsound.root_place (Nat.mod_lt _ (by decide))
    rw [translate, translate, translatePage, translatePage, hdiv]
    exact hmaps.others root (pageOf w) hroot fun j _ hj => by
      rw [rangePage_eq]
      exact hw j (by omega)

/-- A machine with 127 free frames, before `Initialize`. -/
def smallMachine : PageManager where
  frames := ⟨⟨0x01#8 :: List.replicate 15 0#8⟩, 128 * 4096⟩
  memory := fun _ _ => 0
  pml4Table := 0
  cr3 := 0
  outOfFrames := false

theorem smallMachine_bootable : Bootable smallMachine := by
  refine ⟨fun f hf => ?_, rfl⟩
  by_cases hlt : f < 128
  · refine ⟨?_, by omega⟩
    rcases Nat.eq_zero_or_pos f with rfl | hpos
    · revert hf
      decide
    · exact hpos
  · have hout : f / 8 ≥ smallMachine.frames.bitmap.bitmapSize := by
      have hsize : smallMachine.frames.bitmap.bitmapSize = 16 := by decide
      omega
    rw [Bitmap.get, if_pos hout] at hf
    cases hf

private theorem smallMachine_maps : (smallMachine.initializePaging.any fun pm =>
    !pm.outOfFrames && !(pm.mapPage 0x1000000 0x2000000 3 3).outOfFrames) = true := by
  decide +kernel

/-- The small machine has frames enough to start. -/
theorem smallMachine_boots :
    (smallMachine.initializePaging.any fun pm => !pm.outOfFrames) = true := by
  obtain ⟨pm, hpm, hrun⟩ := (Option.any_eq_true _ _).mp smallMachine_maps
  exact (Option.any_eq_true _ _).mpr ⟨pm, hpm, ((Bool.and_eq_true _ _).mp hrun).1⟩

/-- The small machine splits the 2 MB page at 16 MB to map three of its pages. -/
theorem mapPage_translate_small : ∃ pm, KernelReachable pm ∧
    (pm.mapPage 0x1000000 0x2000000 3 3).outOfFrames = false ∧
    ∀ i < 3, translate (pm.mapPage 0x1000000 0x2000000 3 3).memory
        (pm.mapPage 0x1000000 0x2000000 3 3).pml4Table (0x1000000 + i * 4096) =
      ⟨(0x2000000 + i * 4096) / 4096, true, true, false⟩ := by
  obtain ⟨pm, hpm, hrun⟩ := (Option.any_eq_true _ _).mp smallMachine_maps
  have hout := (Bool.not_eq_true' _).mp ((Bool.and_eq_true _ _).mp hrun).2
  have hreach : KernelReachable pm := KernelReachable.boot smallMachine_bootable hpm
  exact ⟨pm, hreach, hout, (mapPage_translate hreach (by decide) (by decide) (by decide)
    (fun i hi j hj h => by omega) hout).1⟩

end Sylphia
