import Sylphia.Paging.Kernel

/-!
# Page tables of processes

`CreateProcessPageTable` copies the root, the table below it and the page directories of
the two gigabytes that apps use. The page tables below these directories are shared, so
that a process starts with the translations of the kernel.
-/

namespace Sylphia

open RadixTree PageTableEntry

/-- The number of pages of the two windows, up to `0x80000000`. -/
def windowPages : Nat := 2 ^ 19

/-- In the windows no entry above the last level is missing. -/
def Full (label : Labelling) (memory : Nat → Nat → PageTableEntry) : Prop :=
  ∀ t m page, page < windowPages → label t = some (pageFormat.place (m + 1) page) →
    (memory t (pageFormat.index (m + 1) page)).present = true

namespace Full

variable {label : Labelling} {memory : Nat → Nat → PageTableEntry} {t i c : Nat}

theorem store (h : Full label memory) {e : PageTableEntry}
    (he : ∀ m page, label t = some (pageFormat.place (m + 1) page) →
      i = pageFormat.index (m + 1) page → page < windowPages → e.present = true) :
    Full label (storeWord memory t i e) := by
  intro s m page hpage hs
  by_cases hc : s = t ∧ pageFormat.index (m + 1) page = i
  · obtain ⟨rfl, rfl⟩ := hc
    rw [storeWord_self]
    exact he m page hs rfl hpage
  · rw [storeWord_of_ne hc]
    exact h s m page hpage hs

theorem fill (h : Full label memory) {x : Nat × Nat} {words : Nat → PageTableEntry}
    (hwords : ∀ m page, page < windowPages → x = pageFormat.place (m + 1) page →
      (words (pageFormat.index (m + 1) page)).present = true) :
    Full (Function.update label c (some x)) (Function.update memory c words) := by
  intro s m page hpage hs
  by_cases hsc : s = c
  · subst hsc
    rw [Function.update_self, Option.some.injEq] at hs
    rw [Function.update_self]
    exact hwords m page hpage hs
  · rw [Function.update_of_ne hsc] at hs ⊢
    exact h s m page hpage hs

theorem fill_frame (h : Full label memory) (hc : label c = none) {words : Nat → PageTableEntry} :
    Full label (Function.update memory c words) := by
  intro s m page hpage hs
  have hsc : s ≠ c := by
    rintro rfl
    rw [hc] at hs
    cases hs
  rw [Function.update_of_ne hsc]
  exact h s m page hpage hs

end Full

/-- In the windows nothing is missing, and all links are open to user mode. -/
structure Windows (label : Labelling) (memory : Nat → Nat → PageTableEntry) : Prop where
  allUser : AllUser label memory
  full : Full label memory

/-- A page of the windows may be mapped with any flags: no link is made on its way, save
for the splitting of a 2 MB page. -/
theorem windows_discipline (user : Bool) {page : Nat} (hpage : page < windowPages) (root : Nat) :
    Discipline Windows user page root where
  raisable := fun hk _ _ _ _ => hk.allUser.raisable _
  raise := by
    intro label memory t m lead i hk _ _ _ hs
    refine ⟨hk.allUser.raise user, hk.full.store fun _ _ _ _ _ => ?_⟩
    exact (congrArg Fields.present (fields_raise (memory t i) user)).trans (stops_eq_false.mp hs).1
  link := by
    intro label memory t m c words e hk _ ht hend hc hwords hf
    have hp := hk.full t m page hpage ht
    obtain rfl : m = 0 := by
      by_contra hm
      rw [stops_eq_false.mpr ⟨hp, fun h1 => absurd h1 (by omega)⟩] at hend
      cases hend
    have hu := hk.allUser t 0 _ _ ht (index_lt_base 1 page) hp
    obtain ⟨hfp, -, hfu, -, -⟩ := Fields.mk.inj hf
    refine ⟨hk.allUser.link (Or.inl rfl) (by rw [hfu, hu, Bool.or_true]),
      (hk.full.fill fun m' page' _ hx => ?_).store fun _ _ _ _ _ => hfp⟩
    exact absurd (congrArg Prod.fst hx) (Nat.succ_ne_zero m').symm
  leaf := by
    intro label memory t lead i e hk ht
    refine ⟨hk.allUser.store_leaf ht, hk.full.store fun m page hx => ?_⟩
    rw [ht, Option.some.injEq] at hx
    exact absurd (congrArg Prod.fst hx) (Nat.succ_ne_zero m).symm
  frame := fun hk hc => ⟨hk.allUser.fill_frame hc, hk.full.fill_frame hc⟩

section Copy

variable {label : Labelling} {memory : Nat → Nat → PageTableEntry} {t s c m lead : Nat}
  {words : Nat → PageTableEntry}

/-- A copy of a table has the label of the original. -/
theorem Tables.copy (h : Tables label memory) (hs : label s = some (m, lead)) (hc : label c = none)
    (hwords : ∀ j < 512, words j = memory s j) :
    Tables (Function.update label c (some (m, lead))) (Function.update memory c words) := by
  have hne {t : Nat} {x : Nat × Nat} (ht : label t = some x) : t ≠ c := by
    rintro rfl
    rw [hc] at ht
    cases ht
  -- Each table, the copy included, has the entries of an old one with the same label.
  have hold {t n k : Nat} (ht : Function.update label c (some (m, lead)) t = some (n + 1, k)) :
      ∃ t₀, label t₀ = some (n + 1, k) ∧
        ∀ j < 512, Function.update memory c words t j = memory t₀ j := by
    by_cases htc : t = c
    · subst htc
      rw [Function.update_self] at ht
      exact ⟨s, hs.trans ht, fun j hj => by rw [Function.update_self, hwords j hj]⟩
    · rw [Function.update_of_ne htc] at ht
      exact ⟨t, ht, fun j _ => by rw [Function.update_of_ne htc]⟩
  refine ⟨?_, ?_, ?_, ?_, ?_⟩ <;> intro t n k i ht hi <;>
    obtain ⟨t₀, ht₀, hsame⟩ := hold ht <;> rw [hsame i hi]
  · intro hstop
    have hchild := h.labelled t₀ n k i ht₀ hi hstop
    rw [Function.update_of_ne (hne hchild)]
    exact hchild
  · exact h.clear t₀ n k i ht₀ hi
  · exact h.writable t₀ n k i ht₀ hi
  · exact h.huge t₀ n k i ht₀ hi
  · intro hstop j hj
    have hchild : label (memory t₀ i).address = some (n, k * 512 + i) :=
      h.labelled t₀ n k i ht₀ hi hstop
    rw [Function.update_of_ne (hne hchild)]
    exact h.user t₀ n k i ht₀ hi hstop j hj

/-- The copy of a table translates like the original. -/
theorem lookup_copy (h : pageFormat.Labelled label memory) {n page : Nat}
    (hs : label s = some (pageFormat.place n page)) (hc : label c = none)
    (hwords : ∀ j < 512, words j = memory s j) :
    pageFormat.lookup (Function.update memory c words) n c page =
      pageFormat.lookup memory n s page := by
  have hread : Function.update memory c words c (pageFormat.index n page) =
      memory s (pageFormat.index n page) := by
    rw [Function.update_self, hwords _ (index_lt_base n page)]
  cases n with
  | zero => rw [lookup_zero, lookup_zero, hread]
  | succ n =>
    cases hstop : pageFormat.stops (n + 1) (memory s (pageFormat.index (n + 1) page)) with
    | true => rw [lookup_of_stops (by rw [hread]; exact hstop), lookup_of_stops hstop, hread]
    | false =>
      rw [lookup_of_not_stops (by rw [hread]; exact hstop), lookup_of_not_stops hstop, hread,
        (Keeps.fill_frame h hc words).lookups n _ page (label_address h hs hstop)]

theorem AllUser.copy (h : AllUser label memory) (hs : label s = some (m, lead))
    (hwords : ∀ j < 512, words j = memory s j) :
    AllUser (Function.update label c (some (m, lead))) (Function.update memory c words) := by
  refine h.fill fun hm j hj hp => ?_
  obtain ⟨n, rfl⟩ := Nat.exists_eq_succ_of_ne_zero hm
  rw [hwords j hj] at hp ⊢
  exact h s n lead j hs hj hp

theorem Windows.copy (h : Windows label memory) (hs : label s = some (m, lead))
    (hwords : ∀ j < 512, words j = memory s j) :
    Windows (Function.update label c (some (m, lead))) (Function.update memory c words) := by
  refine ⟨h.allUser.copy hs hwords, h.full.fill fun n page hpage hx => ?_⟩
  rw [hwords _ (index_lt_base (n + 1) page)]
  exact h.full s n page hpage (hs.trans (congrArg some hx))

theorem fields_relink {e : PageTableEntry} (hc : c < 2 ^ 40) :
    fields (e.setAddress (c * 4096)) =
      ⟨e.present, e.readWrite, e.userSupervisor, e.hugePage, c⟩ := by
  rw [fields_setAddress, shift_mul, Nat.mod_eq_of_lt hc]
  rfl

/-- No lookup changes when a link is set to another table that translates like the one it led
to. -/
theorem relink_lookups (h : pageFormat.Labelled label memory)
    (ht : label t = some (m + 1, lead)) {i : Nat}
    (hs : pageFormat.stops (m + 1) (memory t i) = false)
    (hc : label c = some (m, lead * 512 + i)) (hc40 : c < 2 ^ 40)
    (hsame : ∀ page, label c = some (pageFormat.place m page) →
      pageFormat.lookup memory m c page = pageFormat.lookup memory m (memory t i).address page) :
    Keeps label memory label (storeWord memory t i ((memory t i).setAddress (c * 4096))) := by
  obtain ⟨hfp, hfw, hfu, hfh, hfa⟩ := Fields.mk.inj (@fields_relink c (memory t i) hc40)
  have hstop : pageFormat.stops (m + 1) ((memory t i).setAddress (c * 4096)) = false :=
    (stops_congr hfp hfh).trans hs
  refine Keeps.store h ht fun page hplace hidx => ?_
  subst hidx
  have hbelow : label c = some (pageFormat.place m page) := by
    rw [ht, Format.place, Option.some.injEq, Prod.mk.injEq] at hplace
    rw [hc, place_eq, hplace.2]
    rfl
  rw [lookup_of_not_stops (by rw [storeWord_self]; exact hstop), lookup_of_not_stops hs,
    storeWord_self, hfa, lookup_store_below h ht hbelow, hsame page hbelow,
    Translation.under, Translation.under, hfp, hfw, hfu]

/-- A link is set to another table that translates like the one it led to. -/
theorem relink_keeps (h : Tables label memory) (hw : AllUser label memory)
    (ht : label t = some (m + 1, lead)) {i : Nat} (hi : i < 512)
    (hs : pageFormat.stops (m + 1) (memory t i) = false)
    (hc : label c = some (m, lead * 512 + i)) (hc40 : c < 2 ^ 40)
    (hsame : ∀ page, label c = some (pageFormat.place m page) →
      pageFormat.lookup memory m c page = pageFormat.lookup memory m (memory t i).address page) :
    Tables label (storeWord memory t i ((memory t i).setAddress (c * 4096))) ∧
      AllUser label (storeWord memory t i ((memory t i).setAddress (c * 4096))) ∧
      Keeps label memory label (storeWord memory t i ((memory t i).setAddress (c * 4096))) := by
  obtain ⟨hfp, hfw, hfu, hfh, hfa⟩ := Fields.mk.inj (@fields_relink c (memory t i) hc40)
  have hp := (stops_eq_false.mp hs).1
  have hu := hw t m lead i ht hi hp
  refine ⟨?_, hw.store fun _ _ _ _ _ => hfu.trans hu, relink_lookups h.labelled ht hs hc hc40 hsame⟩
  · refine h.store ht hi (hfp.trans hp) (hfw.trans (h.writable t m lead i ht hi hp)) (fun hh => ?_)
      (fun _ => by rw [hfa]; exact hc) (fun _ _ _ _ => hfu.trans hu) fun _ => Or.inl hu
    -- Only a page directory could have such an entry, and there the walk would end.
    rw [hfh] at hh
    obtain ⟨rfl, -⟩ := h.huge t m lead i ht hi hp hh
    rw [stops_of_huge hh] at hs
    cases hs

end Copy

/-! ## `CreateProcessPageTable` -/

/-- The entries that `CopyPageTable` writes. -/
def copyTable (words : Nat → PageTableEntry) (k : Nat) : PageTableEntry :=
  if k < 512 then words k else 0

theorem copyTable_of_lt (words : Nat → PageTableEntry) {k : Nat} (hk : k < 512) :
    copyTable words k = words k := if_pos hk

namespace PageManager

variable {pm : PageManager} {label : Labelling} {s : Nat}

/-- `CopyPageTable` fails for want of a frame and only records that it did, or it copies to a free
frame. -/
theorem copyPageTable_cases {x : Nat × Nat} (ha : Allocated label pm.frames)
    (hs : label s = some x) :
    pm.frames.bitmap.freeSet = ∅ ∧
      pm.copyPageTable (s * 4096) = (0, { pm with outOfFrames := true }) ∨
    ∃ c frames', TakesFrame pm.frames c frames' ∧ pm.copyPageTable (s * 4096) = (c * 4096,
      { pm with
        frames := frames'
        memory := Function.update pm.memory c (copyTable (pm.memory s)) }) := by
  rw [copyPageTable]
  rcases allocateTable_cases ha with ⟨hempty, he⟩ | ⟨c, frames', htake, he⟩
  · rw [he]
    exact Or.inl ⟨hempty, rfl⟩
  · have hpos := (ha.free c htake.free).1
    have hsc := ne_of_takes ha hs htake
    refine Or.inr ⟨c, frames', htake, ?_⟩
    rw [he]
    dsimp only
    rw [if_neg (by omega), fillTable_mul]
    simp only [entry_mul, Function.update_of_ne hsc, Function.update_self, Function.update_idem]
    rfl

/-- `CopyPageTable` when it does not run out of frames. -/
theorem copyPageTable_eq {x : Nat × Nat} (ha : Allocated label pm.frames) (hs : label s = some x)
    (hout : (pm.copyPageTable (s * 4096)).2.outOfFrames = false) :
    ∃ c frames', TakesFrame pm.frames c frames' ∧ pm.copyPageTable (s * 4096) = (c * 4096,
      { pm with
        frames := frames'
        memory := Function.update pm.memory c (copyTable (pm.memory s)) }) := by
  rcases copyPageTable_cases ha hs with ⟨-, he⟩ | hcopy
  · rw [he] at hout
    cases hout
  · exact hcopy

theorem outOfFrames_copyPageTable {src : Nat}
    (h : (pm.copyPageTable src).2.outOfFrames = false) : pm.outOfFrames = false := by
  rw [copyPageTable] at h
  refine outOfFrames_allocateTable ?_
  cases hx : pm.allocateTable with
  | mk ptr pm' =>
    rw [hx] at h
    dsimp only at h
    split at h
    · exact h
    · rwa [outOfFrames_fillTable] at h

theorem outOfFrames_copyDirectory {newPdp index : Nat}
    (h : (pm.copyDirectory newPdp index).outOfFrames = false) : pm.outOfFrames = false := by
  rw [copyDirectory] at h
  dsimp only at h
  split at h
  · refine @outOfFrames_copyPageTable pm (pm.entry newPdp index).getAddress ?_
    split at h
    · exact h
    · exact h
  · exact h

end PageManager

/-- The tables of all roots together, with the windows complete. -/
structure Layout (label : Labelling) (pm : PageManager) : Prop where
  tables : Tables label pm.memory
  allocated : Allocated label pm.frames
  windows : Windows label pm.memory

/-- The frames that the copies of tables leave alone, and what becomes of lookups. -/
structure Adds (label : Labelling) (pm : PageManager) (label' : Labelling) (pm' : PageManager) :
    Prop where
  layout : Layout label' pm'
  keeps : Keeps label pm.memory label' pm'.memory
  grows : Grows label pm.frames label' pm'.frames
  pml4 : pm'.pml4Table = pm.pml4Table

namespace Adds

variable {label label₁ label' : Labelling} {pm pm₁ pm' : PageManager}

theorem trans (h : Adds label pm label₁ pm₁) (h' : Adds label₁ pm₁ label' pm') :
    Adds label pm label' pm' :=
  ⟨h'.layout, h.keeps.trans h'.keeps, h.grows.trans h'.grows, h'.pml4.trans h.pml4⟩

/-- What is free afterwards was free before. -/
theorem free (h : Adds label pm label' pm') {f : Nat} (hf : pm'.frames.bitmap.get f = false) :
    pm.frames.bitmap.get f = false := by
  cases hg : pm.frames.bitmap.get f with
  | false => rfl
  | true =>
    rw [h.grows.used f hg] at hf
    cases hf

end Adds

namespace Layout

variable {label : Labelling} {pm : PageManager} {t m lead i : Nat}

/-- The copy of a table under which no entry leads yet. -/
theorem copyPageTable (h : Layout label pm) {s : Nat} (hs : label s = some (m, lead))
    (hout : (pm.copyPageTable (s * 4096)).2.outOfFrames = false) :
    ∃ c pm', pm.frames.bitmap.get c = false ∧ 0 < c ∧ c < 2 ^ 40 ∧
      pm.copyPageTable (s * 4096) = (c * 4096, pm') ∧
      pm'.memory = Function.update pm.memory c (copyTable (pm.memory s)) ∧
      Adds label pm (Function.update label c (some (m, lead))) pm' ∧
      pm'.frames.bitmap.get c = true := by
  obtain ⟨c, frames', htake, he⟩ := PageManager.copyPageTable_eq h.allocated hs hout
  have hc := h.allocated.label_eq_none htake
  obtain ⟨hpos, hc40⟩ := h.allocated.free c htake.free
  have hwords : ∀ j < 512, copyTable (pm.memory s) j = pm.memory s j := fun j hj =>
    copyTable_of_lt _ hj
  exact ⟨c, _, htake.free, hpos, hc40, he, rfl,
    ⟨⟨h.tables.copy hs hc hwords, h.allocated.label_frame htake _, h.windows.copy hs hwords⟩,
      Keeps.fill h.tables.labelled hc _ _, Grows.label_frame htake _, rfl⟩, by simp [htake.taken]⟩

/-- The entry `i` of the table `t` leads to a copy `c` of the table it led to. -/
structure CopiesBelow (label : Labelling) (pm : PageManager) (t m lead i c : Nat)
    (pm' : PageManager) : Prop where
  adds : Adds label pm (Function.update label c (some (m, lead * 512 + i))) pm'
  free : pm.frames.bitmap.get c = false
  used : pm'.frames.bitmap.get c = true
  pos : 0 < c
  goes : pageFormat.stops (m + 1) (pm'.memory t i) = false
  leads : (pm'.memory t i).address = c
  rest : ∀ j, j ≠ i → pm'.memory t j = pm.memory t j
  others : ∀ s, s ≠ t → s ≠ c → pm'.memory s = pm.memory s

/-- The table below an entry is copied and the copy is linked in its place. -/
theorem copyBelow (h : Layout label pm) (ht : label t = some (m + 1, lead)) (hi : i < 512)
    (hs : pageFormat.stops (m + 1) (pm.memory t i) = false)
    (hout : (pm.copyPageTable (pm.memory t i).getAddress).2.outOfFrames = false) :
    ∃ c pm', pm.copyPageTable (pm.memory t i).getAddress = (c * 4096, pm') ∧
      CopiesBelow label pm t m lead i c
        (pm'.setEntry (t * 4096) i ((pm'.entry (t * 4096) i).setAddress (c * 4096))) := by
  have hchild : label (pm.memory t i).address = some (m, lead * 512 + i) :=
    h.tables.labelled t m lead i ht hi hs
  rw [PageManager.getAddress_eq] at hout ⊢
  obtain ⟨c, pm', hfree, hpos, hc40, he, hmem, hadds, hused⟩ := h.copyPageTable hchild hout
  have hc : label c = none := by
    by_contra hc
    rw [h.allocated.used c hc] at hfree
    cases hfree
  have htc : t ≠ c := by
    rintro rfl
    rw [hc] at ht
    cases ht
  have hread (j : Nat) : pm'.memory t j = pm.memory t j := by
    rw [hmem, Function.update_of_ne htc]
  have ht' : Function.update label c (some (m, lead * 512 + i)) t = some (m + 1, lead) := by
    rw [Function.update_of_ne htc, ht]
  refine ⟨c, pm', he, ?_⟩
  have hs' : pageFormat.stops (m + 1) (pm'.memory t i) = false := by
    rw [hread]
    exact hs
  obtain ⟨htables, huser, hkeeps⟩ := relink_keeps hadds.layout.tables
    hadds.layout.windows.allUser ht' hi hs' (Function.update_self ..) hc40 fun page hplace => by
      rw [Function.update_self, Option.some.injEq] at hplace
      have horig : label (pm.memory t i).address = some (pageFormat.place m page) :=
        hchild.trans (congrArg some hplace)
      rw [hread, hadds.keeps.lookups m _ page horig, hmem]
      exact lookup_copy h.tables.labelled horig hc fun j hj => copyTable_of_lt _ hj
  have hfields := fields_setAddress (pm'.memory t i) (c * 4096)
  rw [shift_mul, Nat.mod_eq_of_lt hc40] at hfields
  obtain ⟨hfp, -, -, hfh, hfa⟩ := Fields.mk.inj hfields
  rw [PageManager.entry_mul, PageManager.setEntry_mul]
  have hfull : Full (Function.update label c (some (m, lead * 512 + i)))
      (storeWord pm'.memory t i ((pm'.memory t i).setAddress (c * 4096))) :=
    hadds.layout.windows.full.store fun _ _ _ _ _ => hfp.trans (stops_eq_false.mp hs').1
  refine ⟨⟨⟨htables, hadds.layout.allocated, huser, hfull⟩, hadds.keeps.trans hkeeps, hadds.grows,
    hadds.pml4⟩, hfree, hused, hpos, ?_, ?_, fun j hj => ?_, fun s hst hsc => ?_⟩
  · dsimp only
    rw [storeWord_self]
    exact (stops_congr hfp hfh).trans hs'
  · dsimp only
    rw [storeWord_self]
    exact hfa
  · dsimp only
    rw [storeWord_of_ne fun hx => hj hx.2, hread]
  · funext j
    dsimp only
    rw [storeWord_of_ne fun hx => hst hx.1, hmem, Function.update_of_ne hsc]

/-- The duplication of one page directory of a copied PDP table. -/
theorem copyDirectory (h : Layout label pm) (ht : label t = some (2, 0)) (hi : i < 2)
    (hout : (pm.copyDirectory (t * 4096) i).outOfFrames = false) :
    ∃ c, CopiesBelow label pm t 1 0 i c (pm.copyDirectory (t * 4096) i) := by
  have hplace : label t = some (pageFormat.place (1 + 1) (i * 2 ^ 18)) := by
    have hz : i * 2 ^ 18 / 512 ^ 3 = 0 := Nat.div_eq_of_lt (by omega)
    rw [ht, Format.place]
    exact congrArg (fun k => some (2, k)) hz.symm
  have hidx : pageFormat.index (1 + 1) (i * 2 ^ 18) = i := by
    show i * 2 ^ 18 / 512 ^ 2 % 512 = i
    omega
  have hp := h.windows.full t 1 (i * 2 ^ 18) (by rw [windowPages]; omega) hplace
  rw [hidx] at hp
  have hs : pageFormat.stops (1 + 1) (pm.memory t i) = false :=
    stops_eq_false.mpr ⟨hp, fun h1 => absurd h1 (by decide)⟩
  rw [PageManager.copyDirectory, PageManager.entry_mul] at hout ⊢
  dsimp only at hout ⊢
  rw [if_pos hp] at hout ⊢
  have hcopy : (pm.copyPageTable (pm.memory t i).getAddress).2.outOfFrames = false := by
    split at hout
    · exact hout
    · exact hout
  obtain ⟨c, pm', he, hbelow⟩ := h.copyBelow ht (by omega) hs hcopy
  have hpos := hbelow.pos
  rw [he]
  dsimp only
  rw [if_neg (by omega)]
  exact ⟨c, hbelow⟩

/-- A new root with the translations of another, and tables of its own in the windows. -/
structure CreatesRoot (label : Labelling) (pm : PageManager) (root a : Nat) (label' : Labelling)
    (pm' : PageManager) : Prop where
  adds : Adds label pm label' pm'
  rooted : label' a = some (3, 0)
  free : pm.frames.bitmap.get a = false
  same : ∀ s, pm.frames.bitmap.get s = true → pm'.memory s = pm.memory s
  /-- In the windows all tables above the last level are new. -/
  own : ∀ page < windowPages, ∀ k t, 1 ≤ k →
    pageFormat.meets pm'.memory k 3 a page = some t → pm.frames.bitmap.get t = false
  translates : ∀ page < 2 ^ 36,
    pageFormat.lookup pm'.memory 3 a page = pageFormat.lookup pm.memory 3 root page

private theorem ne_of_free {pm : PageManager} {f g : Nat} (hf : pm.frames.bitmap.get f = true)
    (hg : pm.frames.bitmap.get g = false) : f ≠ g := by
  rintro rfl
  rw [hf] at hg
  cases hg

/-- The tables of a new process, from the copies that are made one after the other. -/
private theorem createsRoot {root a b c d : Nat} {pm₁ pm₂ pm₃ pm₄ : PageManager}
    (h : Layout label pm) (hroot : label root = some (3, 0))
    (hfree : pm.frames.bitmap.get a = false) (hused : pm₁.frames.bitmap.get a = true)
    (hmem : pm₁.memory = Function.update pm.memory a (copyTable (pm.memory root)))
    (h₁ : Adds label pm (Function.update label a (some (3, 0))) pm₁)
    (h₂ : CopiesBelow (Function.update label a (some (3, 0))) pm₁ a 2 0 0 b pm₂)
    (h₃ : CopiesBelow (Function.update (Function.update label a (some (3, 0))) b (some (2, 0)))
      pm₂ b 1 0 0 c pm₃)
    (h₄ : CopiesBelow (Function.update (Function.update (Function.update label a (some (3, 0))) b
      (some (2, 0))) c (some (1, 0))) pm₃ b 1 0 1 d pm₄) :
    CreatesRoot label pm root a (Function.update (Function.update (Function.update
      (Function.update label a (some (3, 0))) b (some (2, 0))) c (some (1, 0))) d (some (1, 1)))
      pm₄ := by
  have hadds₂ := h₁.trans h₂.adds
  have hadds₃ := hadds₂.trans h₃.adds
  have hrest := (h₂.adds.trans h₃.adds).trans h₄.adds
  have hb := h₁.free h₂.free
  have hc := hadds₂.free h₃.free
  have hd := hadds₃.free h₄.free
  have ha₂ := h₂.adds.grows.used a hused
  have ha₃ := h₃.adds.grows.used a ha₂
  have hab := ne_of_free hused h₂.free
  have hac := ne_of_free ha₂ h₃.free
  have had := ne_of_free ha₃ h₄.free
  have hlabel (x : Nat × Nat) : Function.update label a (some x) a = some x :=
    Function.update_self ..
  refine ⟨hadds₃.trans h₄.adds, hrest.keeps.labels a _ (hlabel _), hfree, fun s hs => ?_,
    fun page hpage k t hk hmeets => ?_, fun page hpage => ?_⟩
  · rw [h₄.others s (ne_of_free hs hb) (ne_of_free hs hd),
      h₃.others s (ne_of_free hs hb) (ne_of_free hs hc),
      h₂.others s (ne_of_free hs hfree) (ne_of_free hs hb), hmem,
      Function.update_of_ne (ne_of_free hs hfree)]
  · rw [windowPages] at hpage
    have hroot0 : pm₄.memory a = pm₂.memory a := by
      rw [h₄.others a hab had, h₃.others a hab hac]
    have hi3 : pageFormat.index 3 page = 0 := by
      show page / 512 ^ 3 % 512 = 0
      omega
    have hi2 : pageFormat.index 2 page = 0 ∨ pageFormat.index 2 page = 1 := by
      show page / 512 ^ 2 % 512 = 0 ∨ page / 512 ^ 2 % 512 = 1
      omega
    have hm3 : pageFormat.meets pm₄.memory 3 3 a page = some a := rfl
    have hm2 : pageFormat.meets pm₄.memory 2 3 a page = some b := by
      rw [Format.meets_below hm3, hi3, hroot0, h₂.goes, if_neg Bool.false_ne_true]
      exact congrArg some h₂.leads
    have hm1 : pageFormat.meets pm₄.memory 1 3 a page = some c ∨
        pageFormat.meets pm₄.memory 1 3 a page = some d := by
      rw [Format.meets_below hm2]
      rcases hi2 with hi2 | hi2
      · rw [hi2, h₄.rest 0 (by decide), h₃.goes, if_neg Bool.false_ne_true]
        exact Or.inl (congrArg some h₃.leads)
      · rw [hi2, h₄.goes, if_neg Bool.false_ne_true]
        exact Or.inr (congrArg some h₄.leads)
    have hk3 : k ≤ 3 := Format.le_of_meets hmeets
    obtain rfl | rfl | rfl : k = 1 ∨ k = 2 ∨ k = 3 := by omega
    · rcases hm1 with hm1 | hm1
      · rwa [← Option.some.inj (hm1.symm.trans hmeets)]
      · rwa [← Option.some.inj (hm1.symm.trans hmeets)]
    · rwa [← Option.some.inj (hm2.symm.trans hmeets)]
    · rwa [← Option.some.inj (hm3.symm.trans hmeets)]
  · have hplace := place_three hpage
    have hnone : label a = none := by
      by_contra hn
      rw [h.allocated.used a hn] at hfree
      cases hfree
    rw [hrest.keeps.lookups 3 a page (by rw [hplace]; exact hlabel _), hmem]
    exact lookup_copy h.tables.labelled (by rw [hplace]; exact hroot) hnone fun j hj =>
      copyTable_of_lt _ hj

/-- `CreateProcessPageTable`, when frames do not run out. -/
theorem createProcessPageTable (h : Layout label pm) {root : Nat}
    (hroot : label root = some (3, 0)) (hpml4 : pm.pml4Table = root * 4096)
    (hout : pm.createProcessPageTable.2.outOfFrames = false) :
    ∃ a label' pm', pm.createProcessPageTable = (a * 4096, pm') ∧
      CreatesRoot label pm root a label' pm' := by
  rw [PageManager.createProcessPageTable, hpml4] at hout ⊢
  have hout₁ : (pm.copyPageTable (root * 4096)).2.outOfFrames = false := by
    cases hx : pm.copyPageTable (root * 4096) with
    | mk ptr pm₁ =>
      rw [hx] at hout
      dsimp only at hout
      split at hout
      · exact hout
      · split at hout
        · split at hout
          · exact PageManager.outOfFrames_copyPageTable hout
          · have hlast := PageManager.outOfFrames_copyDirectory
              (PageManager.outOfFrames_copyDirectory hout)
            rw [PageManager.outOfFrames_setEntry] at hlast
            exact PageManager.outOfFrames_copyPageTable hlast
        · exact hout
  obtain ⟨a, pm₁, hfree, hpos, -, he₁, hmem, h₁, hused⟩ := h.copyPageTable hroot hout₁
  have ha : Function.update label a (some (3, 0)) a = some (2 + 1, 0) := Function.update_self ..
  have hp : (pm₁.memory a 0).present = true :=
    h₁.layout.windows.full a 2 0 (by decide) ha
  have hs : pageFormat.stops (2 + 1) (pm₁.memory a 0) = false :=
    stops_eq_false.mpr ⟨hp, fun h1 => absurd h1 (by decide)⟩
  rw [he₁] at hout ⊢
  dsimp only at hout ⊢
  rw [if_neg (by omega), PageManager.entry_mul, if_pos hp] at hout ⊢
  have hout₂ : (pm₁.copyPageTable (pm₁.memory a 0).getAddress).2.outOfFrames = false := by
    split at hout
    · exact hout
    · have hlast := PageManager.outOfFrames_copyDirectory
        (PageManager.outOfFrames_copyDirectory hout)
      rwa [PageManager.outOfFrames_setEntry] at hlast
  obtain ⟨b, pm₂, he₂, h₂⟩ := h₁.layout.copyBelow ha (by decide) hs hout₂
  have hbpos := h₂.pos
  rw [he₂] at hout ⊢
  dsimp only at hout ⊢
  rw [if_neg (by omega)] at hout ⊢
  have hout₃ := PageManager.outOfFrames_copyDirectory hout
  have hb : Function.update (Function.update label a (some (3, 0))) b (some (2, 0 * 512 + 0)) b =
      some (2, 0) := Function.update_self ..
  obtain ⟨c, h₃⟩ := h₂.adds.layout.copyDirectory hb Nat.zero_lt_two hout₃
  have hb₃ := h₃.adds.keeps.labels b _ hb
  obtain ⟨d, h₄⟩ := h₃.adds.layout.copyDirectory hb₃ Nat.one_lt_two hout
  exact ⟨a, _, _, rfl, createsRoot h hroot hfree hused hmem h₁ h₂ h₃ h₄⟩

end Layout

end Sylphia
