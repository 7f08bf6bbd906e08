import Sylphia.Paging.Translate

/-!
# What writes to page tables do to translations

Each write of the page manager, apart from the one to the last level, keeps the tables
well formed and all translations under every root as they are.
-/

namespace Sylphia

open RadixTree PageTableEntry

/-- A word is stored in a frame. -/
def storeWord (memory : Nat → Nat → PageTableEntry) (t i : Nat) (e : PageTableEntry) :
    Nat → Nat → PageTableEntry :=
  Function.update memory t (Function.update (memory t) i e)

@[simp] theorem storeWord_self (memory : Nat → Nat → PageTableEntry) (t i : Nat)
    (e : PageTableEntry) : storeWord memory t i e t i = e := by
  simp [storeWord]

theorem storeWord_of_ne {memory : Nat → Nat → PageTableEntry} {t i t' i' : Nat}
    {e : PageTableEntry} (h : ¬(t' = t ∧ i' = i)) :
    storeWord memory t i e t' i' = memory t' i' := by
  unfold storeWord
  by_cases ht : t' = t
  · subst ht
    rw [Function.update_self, Function.update_of_ne fun hi => h ⟨rfl, hi⟩]
  · rw [Function.update_of_ne ht]

theorem storeWord_storeWord (memory : Nat → Nat → PageTableEntry) (t i : Nat)
    (e e' : PageTableEntry) : storeWord (storeWord memory t i e) t i e' =
      storeWord memory t i e' := by
  simp [storeWord]

/-- Labels stay, and so does every lookup from a labelled table. -/
structure Keeps (label : Labelling) (memory : Nat → Nat → PageTableEntry) (label' : Labelling)
    (memory' : Nat → Nat → PageTableEntry) : Prop where
  labels : ∀ t x, label t = some x → label' t = some x
  lookups : ∀ n t page, label t = some (pageFormat.place n page) →
    pageFormat.lookup memory' n t page = pageFormat.lookup memory n t page

/-- Every entry that leads to the table is open to user mode. -/
def Raisable (label : Labelling) (memory : Nat → Nat → PageTableEntry) (t : Nat) : Prop :=
  ∀ g n lead i, label g = some (n + 1, lead) → i < 512 →
    pageFormat.stops (n + 1) (memory g i) = false → (memory g i).address = t →
    (memory g i).userSupervisor = true

section Writes

variable {label label' label'' : Labelling} {memory memory' memory'' : Nat → Nat → PageTableEntry}
  {t c i m lead page : Nat} {e : PageTableEntry}

/-- Without labels there is nothing to ask. -/
theorem Tables.empty (memory : Nat → Nat → PageTableEntry) : Tables (fun _ => none) memory := by
  refine ⟨?_, ?_, ?_, ?_, ?_⟩ <;> intro t n lead i ht <;> cases ht

theorem Keeps.refl (label : Labelling) (memory : Nat → Nat → PageTableEntry) :
    Keeps label memory label memory := ⟨fun _ _ h => h, fun _ _ _ _ => rfl⟩

theorem Keeps.trans (h : Keeps label memory label' memory')
    (h' : Keeps label' memory' label'' memory'') : Keeps label memory label'' memory'' :=
  ⟨fun t x hx => h'.labels t x (h.labels t x hx), fun n t page ht =>
    (h'.lookups n t page (h.labels t _ ht)).trans (h.lookups n t page ht)⟩

/-- A table that no label names can be filled at will. -/
theorem Keeps.fill (hl : pageFormat.Labelled label memory) (hc : label c = none)
    (words : Nat → PageTableEntry) (x : Nat × Nat) :
    Keeps label memory (Function.update label c (some x)) (Function.update memory c words) where
  labels := fun t y hy => by
    rw [Function.update_of_ne]
    · exact hy
    · rintro rfl
      simp [hc] at hy
  lookups := fun n t page ht => by
    refine Format.lookup_congr hl base_pos ht fun k _ s hs => ?_
    rw [Function.update_of_ne]
    rintro rfl
    simp [hc] at hs

/-- Filling a frame that is not a table changes no lookup. -/
theorem Keeps.fill_frame (hl : pageFormat.Labelled label memory) (hc : label c = none)
    (words : Nat → PageTableEntry) :
    Keeps label memory label (Function.update memory c words) where
  labels := fun _ _ hy => hy
  lookups := fun n t page ht => by
    refine Format.lookup_congr hl base_pos ht fun k _ s hs => ?_
    rw [Function.update_of_ne]
    rintro rfl
    simp [hc] at hs

/-- The words of a table from which no link leads on: of the last level, clear, or the 2 MB
entries of a page directory. -/
def Ends (m : Nat) (words : Nat → PageTableEntry) : Prop :=
  m = 0 ∨ ∀ j < 512, words j = 0 ∨ m = 1 ∧ (words j).present = true ∧
    (words j).readWrite = true ∧ (words j).hugePage = true ∧ (words j).address % 512 = 0

theorem Ends.stops {words : Nat → PageTableEntry} (h : Ends (m + 1) words) {j : Nat}
    (hj : j < 512) : pageFormat.stops (m + 1) (words j) = true := by
  rcases h with h | h
  · omega
  · rcases h j hj with hz | ⟨hm, -, -, hh, -⟩
    · exact stops_of_absent (by rw [hz]; decide)
    · rw [hm]
      exact stops_of_huge hh

/-- A new table from which no link leads on joins the labelled ones. -/
theorem Tables.fill (h : Tables label memory) (hc : label c = none)
    {words : Nat → PageTableEntry} (hwords : Ends m words) (lead : Nat) :
    Tables (Function.update label c (some (m, lead))) (Function.update memory c words) := by
  have hne {s : Nat} {y : Nat × Nat} (hs : label s = some y) : s ≠ c := by
    rintro rfl
    simp [hc] at hs
  have hcases {s n k : Nat}
      (hs : Function.update label c (some (m, lead)) s = some (n + 1, k)) :
      (s ≠ c ∧ label s = some (n + 1, k)) ∨ (s = c ∧ m = n + 1) := by
    by_cases hsc : s = c
    · subst hsc
      simp only [Function.update_self, Option.some.injEq, Prod.mk.injEq] at hs
      exact Or.inr ⟨rfl, hs.1⟩
    · rw [Function.update_of_ne hsc] at hs
      exact Or.inl ⟨hsc, hs⟩
  have hzero : (0 : PageTableEntry).present = false := by decide
  refine ⟨?_, ?_, ?_, ?_, ?_⟩
  · intro s n k j hs hj hstop
    rcases hcases hs with ⟨hsc, hold⟩ | ⟨rfl, rfl⟩
    · rw [Function.update_of_ne hsc] at hstop ⊢
      have hchild := h.labelled s n k j hold hj hstop
      rwa [Function.update_of_ne (hne hchild)]
    · rw [Function.update_self, hwords.stops hj] at hstop
      cases hstop
  · intro s n k j hs hj hp
    rcases hcases hs with ⟨hsc, hold⟩ | ⟨rfl, rfl⟩
    · rw [Function.update_of_ne hsc] at hp ⊢
      exact h.clear s n k j hold hj hp
    · rw [Function.update_self] at hp ⊢
      rcases (hwords.resolve_left (by omega)) j hj with hz | ⟨-, hpres, -⟩
      · exact hz
      · rw [hpres] at hp
        cases hp
  · intro s n k j hs hj hp
    rcases hcases hs with ⟨hsc, hold⟩ | ⟨rfl, rfl⟩
    · rw [Function.update_of_ne hsc] at hp ⊢
      exact h.writable s n k j hold hj hp
    · rw [Function.update_self] at hp ⊢
      rcases (hwords.resolve_left (by omega)) j hj with hz | ⟨-, -, hw, -⟩
      · rw [hz, hzero] at hp
        cases hp
      · exact hw
  · intro s n k j hs hj hp hh
    rcases hcases hs with ⟨hsc, hold⟩ | ⟨rfl, rfl⟩
    · rw [Function.update_of_ne hsc] at hp hh ⊢
      exact h.huge s n k j hold hj hp hh
    · rw [Function.update_self] at hp ⊢
      rcases (hwords.resolve_left (by omega)) j hj with hz | ⟨hm, -, -, -, ha⟩
      · rw [hz, hzero] at hp
        cases hp
      · exact ⟨by omega, ha⟩
  · intro s n k j hs hj hstop l hl hu
    rcases hcases hs with ⟨hsc, hold⟩ | ⟨rfl, rfl⟩
    · rw [Function.update_of_ne hsc] at hstop hu ⊢
      have hchild := h.labelled s n k j hold hj hstop
      rw [show pageFormat.child (memory s j) = (memory s j).address from rfl] at hchild
      rw [Function.update_of_ne (hne hchild)] at hu
      exact h.user s n k j hold hj hstop l hl hu
    · rw [Function.update_self, hwords.stops hj] at hstop
      cases hstop

/-- A frame that is not a table can be filled at will. -/
theorem Tables.fill_frame (h : Tables label memory) (hc : label c = none)
    (words : Nat → PageTableEntry) : Tables label (Function.update memory c words) := by
  have hne {s : Nat} {y : Nat × Nat} (hs : label s = some y) : s ≠ c := by
    rintro rfl
    simp [hc] at hs
  refine ⟨?_, ?_, ?_, ?_, ?_⟩ <;> intro s n k j hs <;>
    simp only [Function.update_of_ne (hne hs)]
  · exact h.labelled s n k j hs
  · exact h.clear s n k j hs
  · exact h.writable s n k j hs
  · exact h.huge s n k j hs
  · intro hj hstop l hl hu
    have hchild := h.labelled s n k j hs hj hstop
    rw [show pageFormat.child (memory s j) = (memory s j).address from rfl] at hchild
    rw [Function.update_of_ne (hne hchild)] at hu
    exact h.user s n k j hs hj hstop l hl hu

/-- A write to an entry above the last level that leaves it present and writable. -/
theorem Tables.store (h : Tables label memory) (ht : label t = some (m + 1, lead)) (hi : i < 512)
    (hp : e.present = true) (hw : e.readWrite = true)
    (hh : e.hugePage = true → m = 0 ∧ e.address % 512 = 0)
    (hchild : pageFormat.stops (m + 1) e = false → label e.address = some (m, lead * 512 + i))
    (huser : pageFormat.stops (m + 1) e = false → ∀ j < 512,
      (memory e.address j).userSupervisor = true → e.userSupervisor = true)
    (hraise : e.userSupervisor = true →
      (memory t i).userSupervisor = true ∨ Raisable label memory t) :
    Tables label (storeWord memory t i e) := by
  have hcases (s j : Nat) : (s = t ∧ j = i) ∨ storeWord memory t i e s j = memory s j := by
    by_cases hc : s = t ∧ j = i
    · exact Or.inl hc
    · exact Or.inr (storeWord_of_ne hc)
  refine ⟨?_, ?_, ?_, ?_, ?_⟩
  · intro s n k j hs hj hstop
    rcases hcases s j with ⟨rfl, rfl⟩ | he
    · rw [storeWord_self] at hstop ⊢
      rw [ht] at hs
      simp only [Option.some.injEq, Prod.mk.injEq, Nat.add_right_cancel_iff] at hs
      obtain ⟨rfl, rfl⟩ := hs
      exact hchild hstop
    · rw [he] at hstop ⊢
      exact h.labelled s n k j hs hj hstop
  · intro s n k j hs hj hpres
    rcases hcases s j with ⟨rfl, rfl⟩ | he
    · rw [storeWord_self, hp] at hpres
      cases hpres
    · rw [he] at hpres ⊢
      exact h.clear s n k j hs hj hpres
  · intro s n k j hs hj hpres
    rcases hcases s j with ⟨rfl, rfl⟩ | he
    · rw [storeWord_self]
      exact hw
    · rw [he] at hpres ⊢
      exact h.writable s n k j hs hj hpres
  · intro s n k j hs hj hpres hhuge
    rcases hcases s j with ⟨rfl, rfl⟩ | he
    · rw [storeWord_self] at hhuge ⊢
      rw [ht] at hs
      simp only [Option.some.injEq, Prod.mk.injEq, Nat.add_right_cancel_iff] at hs
      exact hs.1 ▸ hh hhuge
    · rw [he] at hpres hhuge ⊢
      exact h.huge s n k j hs hj hpres hhuge
  · intro s n k j hs hj hstop l hl hu
    rcases hcases s j with ⟨rfl, rfl⟩ | he
    · rw [storeWord_self] at hstop hu ⊢
      obtain rfl : m = n := by
        rw [ht] at hs
        simpa using congrArg Prod.fst (Option.some.inj hs)
      have hne : e.address ≠ s := by
        intro hc
        have hlab := hchild hstop
        rw [hc, ht] at hlab
        simp at hlab
      rw [storeWord_of_ne fun hc => hne hc.1] at hu
      exact huser hstop l hl hu
    · rw [he] at hstop hu ⊢
      rcases hcases (memory s j).address l with ⟨ha, rfl⟩ | he'
      · -- The entry above the one written: user mode was open already, or is from above.
        rw [ha, storeWord_self] at hu
        rcases hraise hu with hold | hr
        · exact h.user s n k j hs hj hstop l hl (by rw [ha]; exact hold)
        · exact hr s n k j hs hj hstop ha
      · rw [he'] at hu
        exact h.user s n k j hs hj hstop l hl hu

/-- A write keeps all lookups if it keeps those that start at the entry written. -/
theorem Keeps.store (hl : pageFormat.Labelled label memory) (ht : label t = some (m, lead))
    (hlocal : ∀ page, label t = some (pageFormat.place m page) → pageFormat.index m page = i →
      pageFormat.lookup (storeWord memory t i e) m t page = pageFormat.lookup memory m t page) :
    Keeps label memory label (storeWord memory t i e) where
  labels := fun _ _ hy => hy
  lookups := fun n s page hs => by
    have hsame : Format.SameBut label memory (storeWord memory t i e) t i :=
      fun _ _ _ hne => storeWord_of_ne hne
    by_cases hplace : label t = some (pageFormat.place m page) ∧ pageFormat.index m page = i ∧ m ≤ n
    · obtain ⟨hpl, hidx, hmn⟩ := hplace
      exact Format.lookup_of_local hl base_pos hsame hpl (hlocal page hpl hidx) hmn hs
    · refine Format.lookup_congr hl base_pos hs fun k hk s' hs' => storeWord_of_ne ?_
      rintro ⟨rfl, hidx⟩
      have hkm : k = m := by
        rw [ht] at hs'
        exact (congrArg Prod.fst (Option.some.inj hs')).symm
      subst hkm
      exact hplace ⟨hs', hidx, hk⟩

/-- Below the level of a write the lookups stay. -/
theorem lookup_store_below (hl : pageFormat.Labelled label memory)
    (ht : label t = some (m + 1, lead)) (hc : label c = some (pageFormat.place m page)) :
    pageFormat.lookup (storeWord memory t i e) m c page = pageFormat.lookup memory m c page := by
  refine Format.lookup_congr hl base_pos hc fun k hk s hs => storeWord_of_ne ?_
  rintro ⟨rfl, -⟩
  rw [ht] at hs
  have := congrArg Prod.fst (Option.some.inj hs)
  simp only [Format.place] at this
  omega

end Writes

/-! ## The writes of `EnsureEntry` and of the splitting of 2 MB pages -/

/-- The entry that `EnsureEntry` makes for a new table. -/
def newLink (c : Nat) (user : Bool) : PageTableEntry :=
  (((setAddress 0 (c * 4096)).setPresent true).setReadWrite true).setUserSupervisor user

/-- The page directory entry of a 2 MB page after its splitting. -/
def splitLink (e : PageTableEntry) (c : Nat) (user : Bool) : PageTableEntry :=
  let e := ((e.setAddress (c * 4096)).setHugePage false).setPresent true
  if user then e.setUserSupervisor true else e

/-- The page table that a 2 MB page is split into. -/
def splitTable (huge : PageTableEntry) (k : Nat) : PageTableEntry :=
  if k < 512 then PageManager.splitEntry huge k 0 else 0

/-- The user bit is set on request. -/
def raise (e : PageTableEntry) (user : Bool) : PageTableEntry :=
  if user then e.setUserSupervisor true else e

theorem shift_mul (c : Nat) : (c * 4096) >>> 12 = c := by
  rw [Nat.shiftRight_eq_div_pow]
  exact Nat.mul_div_cancel c (by decide)

theorem fields_newLink {c : Nat} (hc : c < 2 ^ 40) (user : Bool) :
    fields (newLink c user) = ⟨true, true, user, false, c⟩ := by
  simp only [newLink, fields_setUserSupervisor, fields_setReadWrite, fields_setPresent,
    fields_setAddress, shift_mul, Nat.mod_eq_of_lt hc]
  rfl

theorem fields_raise (e : PageTableEntry) (user : Bool) :
    fields (raise e user) =
      ⟨e.present, e.readWrite, user || e.userSupervisor, e.hugePage, e.address⟩ := by
  cases user
  · rfl
  · exact fields_setUserSupervisor e true

theorem fields_splitLink (e : PageTableEntry) {c : Nat} (hc : c < 2 ^ 40) (user : Bool) :
    fields (splitLink e c user) =
      ⟨true, e.readWrite, user || e.userSupervisor, false, c⟩ := by
  have hbase : fields (((e.setAddress (c * 4096)).setHugePage false).setPresent true) =
      ⟨true, e.readWrite, e.userSupervisor, false, c⟩ := by
    simp only [fields_setPresent, fields_setHugePage, fields_setAddress, shift_mul,
      Nat.mod_eq_of_lt hc]
    rfl
  cases user
  · exact hbase
  · exact (fields_setUserSupervisor _ true).trans (by rw [hbase]; rfl)

/-- The pages of an aligned 2 MB page, with its permissions. -/
theorem fields_splitTable {huge : PageTableEntry} {k : Nat} (hk : k < 512)
    (halign : huge.address % 512 = 0) :
    fields (splitTable huge k) =
      ⟨true, huge.readWrite, huge.userSupervisor, false, huge.address + k⟩ := by
  have hlt := address_lt huge
  have haddr : (huge.getAddress + k * kPageSize4K) >>> 12 = huge.address + k := by
    rw [getAddress, kPageSize4K, Nat.shiftLeft_eq, show (2 : Nat) ^ 12 = 4096 from rfl,
      ← Nat.add_mul, shift_mul]
  have hlow : ∀ j < 12, (setAddress 0 (huge.getAddress + k * kPageSize4K)).getLsbD j = false := by
    intro j hj
    rw [getLsbD_setAddress, if_neg (by omega)]
    exact BitVec.getLsbD_zero
  have hmod : (huge.address + k) % 2 ^ 40 = huge.address + k := Nat.mod_eq_of_lt (by omega)
  have hset : (setAddress 0 (huge.getAddress + k * kPageSize4K)).address = huge.address + k := by
    have := congrArg Fields.address (fields_setAddress 0 (huge.getAddress + k * kPageSize4K))
    rw [haddr, hmod] at this
    exact this
  rw [splitTable, if_pos hk, PageManager.splitEntry, fields_setPresent, fields_setHugePage,
    fields_or_flags _ _ hlow, hset]
  rfl

section Links

variable {label : Labelling} {memory : Nat → Nat → PageTableEntry} {t c m lead page : Nat}
  {user : Bool}

/-- A lookup that ends open to user mode began so. -/
theorem user_of_lookup {n : Nat} (h : (pageFormat.lookup memory n c page).user = true) :
    (memory c (pageFormat.index n page)).userSupervisor = true := by
  cases n with
  | zero => exact h
  | succ n =>
    cases hs : pageFormat.stops (n + 1) (memory c (pageFormat.index (n + 1) page)) with
    | true =>
      rw [lookup_of_stops hs] at h
      split at h
      · exact h
      · cases h
    | false =>
      rw [lookup_of_not_stops hs, Translation.under, Bool.and_eq_true] at h
      exact h.1

/-- A clear table maps nothing. -/
theorem lookup_clear (n : Nat) (h : ∀ j, memory c j = 0) :
    pageFormat.lookup memory n c page = .absent := by
  have hzero : fields (0 : PageTableEntry) = ⟨false, false, false, false, 0⟩ := fields_zero
  obtain ⟨hp, hw, hu, -, ha⟩ := Fields.mk.inj hzero
  cases n with
  | zero => rw [lookup_zero, h, Translation.ofLeaf, hp, hw, hu, ha, Translation.absent]
  | succ n =>
    rw [lookup_of_stops (stops_of_absent (by rw [h]; exact hp)), h, hp]
    rfl

@[simp] theorem under_absent (e : PageTableEntry) : Translation.under e .absent = .absent := by
  simp [Translation.under, Translation.absent]

/-- Setting the user bit of a link, where the links above have it, keeps everything. -/
theorem raise_keeps (h : Tables label memory) (ht : label t = some (m + 1, lead)) {i : Nat}
    (hi : i < 512) (hs : pageFormat.stops (m + 1) (memory t i) = false)
    (hr : user = true → Raisable label memory t) :
    Tables label (storeWord memory t i (raise (memory t i) user)) ∧
      Keeps label memory label (storeWord memory t i (raise (memory t i) user)) := by
  obtain ⟨hp, hw, hu, hh, ha⟩ := Fields.mk.inj (fields_raise (memory t i) user)
  have hpres := (stops_eq_false.mp hs).1
  have hstop : pageFormat.stops (m + 1) (raise (memory t i) user) = false := by
    rw [stops_eq_false, hp, hh]
    exact stops_eq_false.mp hs
  constructor
  · refine h.store ht hi (hp.trans hpres) (hw.trans (h.writable t m lead i ht hi hpres)) ?_ ?_ ?_ ?_
    · intro hhuge
      rw [ha]
      exact h.huge t m lead i ht hi hpres (hh.symm.trans hhuge)
    · intro _
      rw [ha]
      exact h.labelled t m lead i ht hi hs
    · intro _ j hj huser
      rw [ha] at huser
      rw [hu, h.user t m lead i ht hi hs j hj huser, Bool.or_true]
    · intro huser
      rw [hu, Bool.or_eq_true] at huser
      exact huser.symm.imp_right hr
  · refine Keeps.store h.labelled ht fun page hpl hidx => ?_
    subst hidx
    have hchild := label_address h.labelled hpl hs
    rw [lookup_of_not_stops hs, lookup_of_not_stops (by rw [storeWord_self]; exact hstop),
      storeWord_self, ha, lookup_store_below h.labelled ht hchild]
    ext
    · rfl
    · simp only [Translation.under, hp]
    · simp only [Translation.under, hw]
    · simp only [Translation.under, hu]
      -- Only an entry that is open already has anything open below it.
      cases hv : (pageFormat.lookup memory m
          (memory t (pageFormat.index (m + 1) page)).address page).user with
      | false => simp
      | true =>
        rw [h.user t m lead _ ht hi hs _ (index_lt_base m page) (user_of_lookup hv), Bool.or_true]

/-- A new table is linked into a table: the tables stay well formed. -/
theorem link_tables (h : Tables label memory) (ht : label t = some (m + 1, lead)) {i : Nat}
    (hi : i < 512) (hc : label c = none) {words : Nat → PageTableEntry} (hwords : Ends m words)
    {e : PageTableEntry} (hf : fields e = ⟨true, true, e.userSupervisor, false, c⟩)
    (huser : ∀ j < 512, (words j).userSupervisor = true → e.userSupervisor = true)
    (hraise : e.userSupervisor = true →
      (memory t i).userSupervisor = true ∨ Raisable label memory t) :
    Tables (Function.update label c (some (m, lead * 512 + i)))
      (storeWord (Function.update memory c words) t i e) := by
  obtain ⟨hp, hw, -, hh, ha⟩ := Fields.mk.inj hf
  have htc : t ≠ c := by
    rintro rfl
    simp [hc] at ht
  have ht' : Function.update label c (some (m, lead * 512 + i)) t = some (m + 1, lead) := by
    rw [Function.update_of_ne htc, ht]
  refine (h.fill hc hwords (lead * 512 + i)).store ht' hi hp hw (fun hc => ?_) (fun _ => ?_)
    (fun _ j hj hu => ?_) fun hu => ?_
  · rw [hh] at hc
    cases hc
  · rw [ha, Function.update_self]
  · rw [ha, Function.update_self] at hu
    exact huser j hj hu
  · rw [Function.update_of_ne htc]
    refine (hraise hu).imp_right fun hr g n k j hg hj hs hga => ?_
    by_cases hgc : g = c
    · -- No entry of the new table leads to a table.
      subst hgc
      rw [Function.update_self, Option.some.injEq, Prod.mk.injEq] at hg
      obtain rfl := hg.1
      rw [Function.update_self, hwords.stops hj] at hs
      cases hs
    · rw [Function.update_of_ne hgc] at hg hs hga ⊢
      exact hr g n k j hg hj hs hga

/-- Where the walk ended, a link to a new table keeps all lookups if the table gives for
its pages what the old entry gave. -/
theorem link_keeps (h : Tables label memory) (ht : label t = some (m + 1, lead)) {i : Nat}
    (hend : pageFormat.stops (m + 1) (memory t i) = true) (hc : label c = none)
    {words : Nat → PageTableEntry} (hwords : Ends m words) {e : PageTableEntry}
    (hf : fields e = ⟨true, true, e.userSupervisor, false, c⟩)
    (hlocal : ∀ page, pageFormat.index (m + 1) page = i →
      Translation.under e (pageFormat.lookup (Function.update memory c words) m c page) =
        if (memory t i).present then .ofHuge (memory t i) page else .absent) :
    Keeps label memory (Function.update label c (some (m, lead * 512 + i)))
      (storeWord (Function.update memory c words) t i e) := by
  obtain ⟨hp, hw, -, hh, ha⟩ := Fields.mk.inj hf
  have htc : t ≠ c := by
    rintro rfl
    simp [hc] at ht
  have hfill := h.fill hc hwords (lead * 512 + i)
  have ht' : Function.update label c (some (m, lead * 512 + i)) t = some (m + 1, lead) := by
    rw [Function.update_of_ne htc, ht]
  have hold : Function.update memory c words t i = memory t i := by
    rw [Function.update_of_ne htc]
  have hstop : pageFormat.stops (m + 1) e = false := stops_eq_false.mpr ⟨hp, fun _ => hh⟩
  refine (Keeps.fill h.labelled hc words _).trans (Keeps.store hfill.labelled ht' ?_)
  intro page hpl hidx
  have hc' : Function.update label c (some (m, lead * 512 + i)) c =
      some (pageFormat.place m page) := by
    rw [Function.update_self, Format.place, ← Format.lead_mul_add_index, hidx]
    rw [ht', Format.place, Option.some.injEq, Prod.mk.injEq] at hpl
    rw [hpl.2]
    rfl
  have hend' : pageFormat.stops (m + 1)
      (Function.update memory c words t (pageFormat.index (m + 1) page)) = true := by
    rw [hidx, hold]
    exact hend
  have hnew : storeWord (Function.update memory c words) t i e t
      (pageFormat.index (m + 1) page) = e := by
    rw [hidx, storeWord_self]
  rw [lookup_of_stops hend', lookup_of_not_stops (by rw [hnew]; exact hstop), hnew, ha,
    lookup_store_below hfill.labelled ht' hc', hlocal page hidx, hidx, hold]

/-- `EnsureEntry` makes a clear table for a missing entry. -/
theorem create_keeps (h : Tables label memory) (ht : label t = some (m + 1, lead)) {i : Nat}
    (hi : i < 512) (habs : (memory t i).present = false) (hc : label c = none)
    (hc40 : c < 2 ^ 40) (hr : user = true → Raisable label memory t) :
    Tables (Function.update label c (some (m, lead * 512 + i)))
        (storeWord (Function.update memory c fun _ => 0) t i (newLink c user)) ∧
      Keeps label memory (Function.update label c (some (m, lead * 512 + i)))
        (storeWord (Function.update memory c fun _ => 0) t i (newLink c user)) := by
  have hf := fields_newLink hc40 user
  have hu : (newLink c user).userSupervisor = user := congrArg Fields.userSupervisor hf
  have hf' : fields (newLink c user) = ⟨true, true, (newLink c user).userSupervisor, false, c⟩ := by
    rw [hu]
    exact hf
  have hwords : Ends m fun _ => 0 := Or.inr fun _ _ => Or.inl rfl
  refine ⟨link_tables h ht hi hc hwords hf' (fun j _ hz => absurd hz (by decide))
    fun hup => Or.inr (hr (hu ▸ hup)), link_keeps h ht (stops_of_absent habs) hc hwords hf' ?_⟩
  · intro page _
    rw [lookup_clear m fun j => by rw [Function.update_self], under_absent, habs]
    rfl

/-- The splitting of a 2 MB page keeps the translations of all its pages. -/
theorem split_keeps (h : Tables label memory) (ht : label t = some (1, lead)) {i : Nat}
    (hi : i < 512) (hp : (memory t i).present = true) (hh : (memory t i).hugePage = true)
    (hc : label c = none) (hc40 : c < 2 ^ 40) (hr : user = true → Raisable label memory t) :
    Tables (Function.update label c (some (0, lead * 512 + i)))
        (storeWord (Function.update memory c (splitTable (memory t i))) t i
          (splitLink (memory t i) c user)) ∧
      Keeps label memory (Function.update label c (some (0, lead * 512 + i)))
        (storeWord (Function.update memory c (splitTable (memory t i))) t i
          (splitLink (memory t i) c user)) := by
  obtain ⟨-, halign⟩ := h.huge t 0 lead i ht hi hp hh
  have hw := h.writable t 0 lead i ht hi hp
  have hf := fields_splitLink (memory t i) hc40 user
  have hu : (splitLink (memory t i) c user).userSupervisor =
      (user || (memory t i).userSupervisor) := congrArg Fields.userSupervisor hf
  have hf' : fields (splitLink (memory t i) c user) =
      ⟨true, true, (splitLink (memory t i) c user).userSupervisor, false, c⟩ := by
    rw [hu, hf, hw]
  refine ⟨link_tables h ht hi hc (Or.inl rfl) hf' ?_ ?_,
    link_keeps h ht (stops_of_huge hh) hc (Or.inl rfl) hf' ?_⟩
  · intro j hj hset
    have := congrArg Fields.userSupervisor (fields_splitTable hj halign)
    rw [show (splitTable (memory t i) j).userSupervisor = (memory t i).userSupervisor from this]
      at hset
    rw [hu, hset, Bool.or_true]
  · intro hup
    rw [hu, Bool.or_eq_true] at hup
    exact hup.symm.imp_right hr
  · intro page _
    have hidx : pageFormat.index 0 page = page % 512 := by
      rw [Format.index, pow_zero, Nat.div_one]
      rfl
    have hbase : (memory t i).address / 512 * 512 = (memory t i).address := by omega
    obtain ⟨hlp, hlw, hlu, -, hla⟩ :=
      Fields.mk.inj (fields_splitTable (Nat.mod_lt page (by decide) : page % 512 < 512) halign)
    have hlink := (Fields.mk.inj hf)
    rw [lookup_zero, Function.update_self, hidx, hp, if_pos rfl]
    ext
    · simp only [Translation.under, Translation.ofLeaf, Translation.ofHuge, hla, hbase]
    · simp only [Translation.under, Translation.ofLeaf, Translation.ofHuge, hlp, hp, hlink.1,
        Bool.and_self]
    · simp only [Translation.under, Translation.ofLeaf, Translation.ofHuge, hlw, hlink.2.1,
        Bool.and_self]
    · simp only [Translation.under, Translation.ofLeaf, Translation.ofHuge, hlu, hu]
      cases (memory t i).userSupervisor <;> simp

/-- A write to the last level, open to user mode only where the links above are. -/
theorem leaf_tables (h : Tables label memory) (ht : label t = some (0, lead)) {i : Nat}
    {e : PageTableEntry} (hr : e.userSupervisor = true → Raisable label memory t) :
    Tables label (storeWord memory t i e) := by
  have hsame {s n k j : Nat} (hs : label s = some (n + 1, k)) :
      storeWord memory t i e s j = memory s j := by
    refine storeWord_of_ne ?_
    rintro ⟨rfl, -⟩
    rw [ht] at hs
    simp at hs
  refine ⟨?_, ?_, ?_, ?_, ?_⟩
  · intro s n k j hs hj hstop
    rw [hsame hs] at hstop ⊢
    exact h.labelled s n k j hs hj hstop
  · intro s n k j hs hj hp
    rw [hsame hs] at hp ⊢
    exact h.clear s n k j hs hj hp
  · intro s n k j hs hj hp
    rw [hsame hs] at hp ⊢
    exact h.writable s n k j hs hj hp
  · intro s n k j hs hj hp hh
    rw [hsame hs] at hp hh ⊢
    exact h.huge s n k j hs hj hp hh
  · intro s n k j hs hj hstop l hl hu
    rw [hsame hs] at hstop hu ⊢
    by_cases hc : (memory s j).address = t ∧ l = i
    · obtain ⟨ha, rfl⟩ := hc
      rw [ha, storeWord_self] at hu
      exact hr hu s n k j hs hj hstop ha
    · rw [storeWord_of_ne hc] at hu
      exact h.user s n k j hs hj hstop l hl hu

/-- A write to the last level changes the lookups of its own page only. -/
theorem lookup_leaf_of_ne (hl : pageFormat.Labelled label memory) (ht : label t = some (0, lead))
    {i : Nat} {e : PageTableEntry} {n s : Nat} (hs : label s = some (pageFormat.place n page))
    (hne : page ≠ lead * 512 + i) :
    pageFormat.lookup (storeWord memory t i e) n s page = pageFormat.lookup memory n s page :=
  Format.lookup_of_place_ne hl base_pos (fun _ _ _ hc => storeWord_of_ne hc) ht hs
    (by rw [pow_zero, Nat.div_one]; exact hne)

end Links

/-- All labelled tables hang, through the entries of their places, under one root. -/
structure OneRoot (label : Labelling) (memory : Nat → Nat → PageTableEntry) (root : Nat) :
    Prop where
  top : ∀ g lead, label g = some (3, lead) → g = root
  level : ∀ g n lead, label g = some (n, lead) → n ≤ 3
  linked : ∀ c n k, label c = some (n, k) → n < 3 → ∃ g, label g = some (n + 1, k / 512) ∧
    pageFormat.stops (n + 1) (memory g (k % 512)) = false ∧ (memory g (k % 512)).address = c

namespace OneRoot

variable {label : Labelling} {memory : Nat → Nat → PageTableEntry} {root t c m lead : Nat}

/-- A root alone. -/
theorem single (memory : Nat → Nat → PageTableEntry) (root : Nat) :
    OneRoot (Function.update (fun _ => none) root (some (3, 0))) memory root := by
  have honly {g n k : Nat}
      (hg : Function.update (fun _ => none : Labelling) root (some (3, 0)) g = some (n, k)) :
      g = root ∧ n = 3 := by
    rcases update_eq_some.mp hg with ⟨hgr, hx⟩ | ⟨-, hx⟩
    · exact ⟨hgr, congrArg Prod.fst hx⟩
    · cases hx
  refine ⟨fun g k hg => (honly hg).1, fun g n k hg => (honly hg).2.le, fun c n k hc hn => ?_⟩
  have := (honly hc).2
  omega

/-- Each place has at most one table. -/
theorem unique (h : OneRoot label memory root) {c' : Nat} {x : Nat × Nat}
    (hc : label c = some x) (hc' : label c' = some x) : c = c' := by
  obtain ⟨n, k⟩ := x
  have hn := h.level c n k hc
  induction hd : 3 - n generalizing n k c c' with
  | zero =>
    obtain rfl : n = 3 := by omega
    exact (h.top c k hc).trans (h.top c' k hc').symm
  | succ d ih =>
    obtain ⟨g, hg, -, ha⟩ := h.linked c n k hc (by omega)
    obtain ⟨g', hg', -, ha'⟩ := h.linked c' n k hc' (by omega)
    have hgg := ih (n + 1) (k / 512) hg hg' (by omega) (by omega)
    rw [← ha, ← ha', hgg]

/-- The links on an open way are the only ones that lead to their tables. -/
theorem raisable (h : OneRoot label memory root) (hl : pageFormat.Labelled label memory)
    {user : Bool} {page : Nat} (hroot : label root = some (pageFormat.place 3 page))
    (ho : Opens memory user page root m t) (hu : user = true) : Raisable label memory t := by
  intro g n k i hg hi hs ha
  have hlab := hl g n k i hg hi hs
  rw [show pageFormat.child (memory g i) = t from ha] at hlab
  have hn := h.level g (n + 1) k hg
  cases ho with
  | root =>
    rw [hroot, Format.place, Option.some.injEq, Prod.mk.injEq] at hlab
    omega
  | @child m t' ho' hs' hw' hu' =>
    have hplace := (label_address hl (ho'.label_eq hl hroot) hs').symm.trans hlab
    simp only [Format.place, Option.some.injEq, Prod.mk.injEq] at hplace
    obtain ⟨rfl, hkey⟩ := hplace
    have hdigits : page / 512 ^ (m + 1 + 1) * 512 + pageFormat.index (m + 1) page =
        page / 512 ^ (m + 1) := @Format.lead_mul_add_index _ _ pageFormat page (m + 1)
    have hi' := index_lt_base (m + 1) page
    have hbase : pageFormat.base = 512 := rfl
    rw [hbase] at hkey
    have hik : k = page / 512 ^ (m + 1 + 1) ∧ i = pageFormat.index (m + 1) page := by omega
    have hgt : g = t' := by
      refine h.unique hg ((ho'.label_eq hl hroot).trans ?_)
      rw [Format.place, hbase, hik.1]
    rw [hgt, hik.2]
    exact hu' hu

theorem store (h : OneRoot label memory root) (ht : label t = some (m + 1, lead)) {i : Nat}
    {e : PageTableEntry} (hs : pageFormat.stops (m + 1) e = false)
    (ha : e.address = (memory t i).address) : OneRoot label (storeWord memory t i e) root where
  top := h.top
  level := h.level
  linked := fun c n k hc hn => by
    obtain ⟨g, hg, hgs, hga⟩ := h.linked c n k hc hn
    refine ⟨g, hg, ?_⟩
    by_cases hgt : g = t ∧ k % 512 = i
    · obtain ⟨rfl, rfl⟩ := hgt
      rw [ht, Option.some.injEq, Prod.mk.injEq] at hg
      obtain rfl : m = n := by omega
      rw [storeWord_self]
      exact ⟨hs, ha.trans hga⟩
    · rw [storeWord_of_ne hgt]
      exact ⟨hgs, hga⟩

theorem store_leaf (h : OneRoot label memory root) (ht : label t = some (0, lead)) {i : Nat}
    {e : PageTableEntry} : OneRoot label (storeWord memory t i e) root where
  top := h.top
  level := h.level
  linked := fun c n k hc hn => by
    obtain ⟨g, hg, hgs, hga⟩ := h.linked c n k hc hn
    have hgt : ¬(g = t ∧ k % 512 = i) := by
      rintro ⟨rfl, -⟩
      rw [ht] at hg
      simp at hg
    refine ⟨g, hg, ?_⟩
    rw [storeWord_of_ne hgt]
    exact ⟨hgs, hga⟩

theorem fill_frame (h : OneRoot label memory root) (hc : label c = none)
    {words : Nat → PageTableEntry} : OneRoot label (Function.update memory c words) root where
  top := h.top
  level := h.level
  linked := fun d n k hd hn => by
    obtain ⟨g, hg, hgs, hga⟩ := h.linked d n k hd hn
    have hgc : g ≠ c := by
      rintro rfl
      rw [hc] at hg
      cases hg
    refine ⟨g, hg, ?_⟩
    rw [Function.update_of_ne hgc]
    exact ⟨hgs, hga⟩

theorem link (h : OneRoot label memory root) (ht : label t = some (m + 1, lead)) {i : Nat}
    (hi : i < 512) (hend : pageFormat.stops (m + 1) (memory t i) = true) (hc : label c = none)
    (words : Nat → PageTableEntry) {e : PageTableEntry} (hs : pageFormat.stops (m + 1) e = false)
    (ha : e.address = c) :
    OneRoot (Function.update label c (some (m, lead * 512 + i)))
      (storeWord (Function.update memory c words) t i e) root := by
  have hm := h.level t (m + 1) lead ht
  have htc : t ≠ c := by
    rintro rfl
    simp [hc] at ht
  refine ⟨fun g k hg => ?_, fun g n k hg => ?_, fun d n k hd hn => ?_⟩
  · by_cases hgc : g = c
    · subst hgc
      rw [Function.update_self, Option.some.injEq, Prod.mk.injEq] at hg
      omega
    · rw [Function.update_of_ne hgc] at hg
      exact h.top g k hg
  · by_cases hgc : g = c
    · subst hgc
      rw [Function.update_self, Option.some.injEq, Prod.mk.injEq] at hg
      omega
    · rw [Function.update_of_ne hgc] at hg
      exact h.level g n k hg
  · by_cases hdc : d = c
    · subst hdc
      rw [Function.update_self, Option.some.injEq, Prod.mk.injEq] at hd
      obtain ⟨rfl, rfl⟩ := hd
      have hlead : (lead * 512 + i) / 512 = lead ∧ (lead * 512 + i) % 512 = i := by omega
      refine ⟨t, ?_, ?_⟩
      · rw [Function.update_of_ne htc, hlead.1, ht]
      · rw [hlead.2, storeWord_self]
        exact ⟨hs, ha⟩
    · rw [Function.update_of_ne hdc] at hd
      obtain ⟨g, hg, hgs, hga⟩ := h.linked d n k hd hn
      have hgc : g ≠ c := by
        rintro rfl
        simp [hc] at hg
      have hgt : ¬(g = t ∧ k % 512 = i) := by
        rintro ⟨rfl, rfl⟩
        rw [ht, Option.some.injEq, Prod.mk.injEq] at hg
        obtain rfl : m = n := by omega
        rw [hend] at hgs
        cases hgs
      refine ⟨g, ?_, ?_⟩
      · rw [Function.update_of_ne hgc, hg]
      · rw [storeWord_of_ne hgt, Function.update_of_ne hgc]
        exact ⟨hgs, hga⟩

end OneRoot

/-- Every link that is present is open to user mode. -/
def AllUser (label : Labelling) (memory : Nat → Nat → PageTableEntry) : Prop :=
  ∀ t n lead i, label t = some (n + 1, lead) → i < 512 → (memory t i).present = true →
    (memory t i).userSupervisor = true

/-- A condition on the tables that the writes for a page keep, and under which the user
bits of the links on the way of the page may be set. -/
structure Discipline (K : Labelling → (Nat → Nat → PageTableEntry) → Prop) (user : Bool)
    (page root : Nat) : Prop where
  raisable : ∀ {label memory m t}, K label memory → Tables label memory →
    label root = some (pageFormat.place 3 page) → Opens memory user page root m t → user = true →
    Raisable label memory t
  raise : ∀ {label memory t m lead i}, K label memory → Tables label memory →
    label t = some (m + 1, lead) → i < 512 → pageFormat.stops (m + 1) (memory t i) = false →
    K label (storeWord memory t i (raise (memory t i) user))
  link : ∀ {label memory t m c words e}, K label memory → Tables label memory →
    label t = some (pageFormat.place (m + 1) page) →
    pageFormat.stops (m + 1) (memory t (pageFormat.index (m + 1) page)) = true →
    label c = none → (m = 0 ∨ ∀ j, words j = 0) →
    fields e = ⟨true, true,
      user || (memory t (pageFormat.index (m + 1) page)).userSupervisor, false, c⟩ →
    K (Function.update label c (some (pageFormat.place m page)))
      (storeWord (Function.update memory c words) t (pageFormat.index (m + 1) page) e)
  leaf : ∀ {label memory t lead i e}, K label memory → label t = some (0, lead) →
    K label (storeWord memory t i e)
  frame : ∀ {label memory c words}, K label memory → label c = none →
    K label (Function.update memory c words)

/-- The place of the table below, in digits. -/
theorem place_eq (m page : Nat) : pageFormat.place m page =
    (m, page / 512 ^ (m + 1 + 1) * 512 + pageFormat.index (m + 1) page) :=
  congrArg (Prod.mk m) (@Format.lead_mul_add_index _ _ pageFormat page (m + 1)).symm

theorem stops_of_fields {m c : Nat} {b : Bool} {e : PageTableEntry}
    (h : fields e = ⟨true, true, b, false, c⟩) : pageFormat.stops (m + 1) e = false := by
  obtain ⟨hp, -, -, hh, -⟩ := Fields.mk.inj h
  exact stops_eq_false.mpr ⟨hp, fun _ => hh⟩

/-- Under a single root any page may be mapped. -/
theorem oneRoot_discipline (user : Bool) (page root : Nat) :
    Discipline (fun label memory => OneRoot label memory root) user page root where
  raisable := fun hk h hroot ho hu => hk.raisable h.labelled hroot ho hu
  raise := by
    intro label memory t m lead i hk _ ht _ hs
    obtain ⟨hp, -, -, hh, ha⟩ := Fields.mk.inj (fields_raise (memory t i) user)
    refine hk.store ht ?_ ha
    rw [stops_eq_false, hp, hh]
    exact stops_eq_false.mp hs
  link := by
    intro label memory t m c words e hk _ ht hend hc _ hf
    have hlink := hk.link ht (index_lt_base (m + 1) page) hend hc words (stops_of_fields hf)
      (congrArg Fields.address hf)
    rwa [place_eq]
  leaf := fun hk ht => hk.store_leaf ht
  frame := fun hk hc => hk.fill_frame hc

namespace AllUser

variable {label : Labelling} {memory : Nat → Nat → PageTableEntry} {t i c : Nat}

theorem store (h : AllUser label memory) {e : PageTableEntry}
    (he : ∀ n lead, label t = some (n + 1, lead) → i < 512 → e.present = true →
      e.userSupervisor = true) :
    AllUser label (storeWord memory t i e) := by
  intro s n k j hs hj hp
  by_cases hc : s = t ∧ j = i
  · obtain ⟨rfl, rfl⟩ := hc
    rw [storeWord_self] at hp ⊢
    exact he n k hs hj hp
  · rw [storeWord_of_ne hc] at hp ⊢
    exact h s n k j hs hj hp

theorem fill (h : AllUser label memory) {x : Nat × Nat} {words : Nat → PageTableEntry}
    (hwords : x.1 ≠ 0 → ∀ j < 512, (words j).present = true → (words j).userSupervisor = true) :
    AllUser (Function.update label c (some x)) (Function.update memory c words) := by
  intro s n k j hs hj hp
  by_cases hsc : s = c
  · subst hsc
    rw [Function.update_self, Option.some.injEq] at hs
    rw [Function.update_self] at hp ⊢
    exact hwords (by rw [hs]; exact Nat.succ_ne_zero n) j hj hp
  · rw [Function.update_of_ne hsc] at hs hp ⊢
    exact h s n k j hs hj hp

theorem fill_frame (h : AllUser label memory) (hc : label c = none)
    {words : Nat → PageTableEntry} : AllUser label (Function.update memory c words) := by
  intro s n k j hs hj hp
  have hsc : s ≠ c := by
    rintro rfl
    rw [hc] at hs
    cases hs
  rw [Function.update_of_ne hsc] at hp ⊢
  exact h s n k j hs hj hp

theorem raisable (h : AllUser label memory) (t : Nat) : Raisable label memory t :=
  fun g n k i hg hi hs _ => h g n k i hg hi (stops_eq_false.mp hs).1

theorem raise (h : AllUser label memory) (user : Bool) :
    AllUser label (storeWord memory t i (raise (memory t i) user)) := by
  refine h.store fun n k ht hi hp => ?_
  obtain ⟨hfp, -, hfu, -, -⟩ := Fields.mk.inj (fields_raise (memory t i) user)
  rw [hfu, h t n k i ht hi (hfp.symm.trans hp), Bool.or_true]

theorem store_leaf (h : AllUser label memory) {lead : Nat} (ht : label t = some (0, lead))
    {e : PageTableEntry} : AllUser label (storeWord memory t i e) := by
  refine h.store fun n k hs => ?_
  rw [ht] at hs
  simp at hs

/-- A new table below a link that is open to user mode. -/
theorem link (h : AllUser label memory) {x : Nat × Nat} {words : Nat → PageTableEntry}
    (hwords : x.1 = 0 ∨ ∀ j, words j = 0) {e : PageTableEntry} (hu : e.userSupervisor = true) :
    AllUser (Function.update label c (some x))
      (storeWord (Function.update memory c words) t i e) := by
  refine store (h.fill fun hx j _ hp => ?_) fun _ _ _ _ _ => hu
  rcases hwords with h0 | hz
  · exact absurd h0 hx
  · rw [hz j] at hp
    exact absurd hp (by decide)

end AllUser

/-- Where all links are open to user mode, a page may be mapped that is to be so, too. -/
theorem allUser_discipline (page root : Nat) : Discipline AllUser true page root where
  raisable := fun hk _ _ _ _ => hk.raisable _
  raise := fun hk _ _ _ _ => hk.raise true
  link := fun hk _ _ _ _ hwords hf => hk.link hwords (congrArg Fields.userSupervisor hf)
  leaf := fun hk ht => hk.store_leaf ht
  frame := fun hk hc => hk.fill_frame hc

end Sylphia
