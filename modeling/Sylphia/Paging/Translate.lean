import Sylphia.Core.RadixTree
import Sylphia.Paging.Manager

/-!
# Address translation

The four-level walk of the processor as a lookup in a radix tree, and the invariant of
page tables that the operations of the page manager keep. Tables may belong to several
roots.
-/

namespace Sylphia

open RadixTree PageTableEntry

/-- What a walk gives for a page: the physical page, and the conjunction over all levels
of the present, writable and user bits. -/
@[ext]
structure Translation where
  page : Nat
  present : Bool
  writable : Bool
  user : Bool
  deriving DecidableEq, Repr

namespace Translation

/-- The walk ends at an entry above the last level that is not present. -/
def absent : Translation := ⟨0, false, false, false⟩

/-- The bits of an entry are conjoined with those found below it. -/
def under (e : PageTableEntry) (t : Translation) : Translation where
  page := t.page
  present := e.present && t.present
  writable := e.readWrite && t.writable
  user := e.userSupervisor && t.user

/-- What an entry of the last level gives. -/
def ofLeaf (e : PageTableEntry) : Translation :=
  ⟨e.address, e.present, e.readWrite, e.userSupervisor⟩

/-- What a 2 MB entry gives for a page. -/
def ofHuge (e : PageTableEntry) (page : Nat) : Translation :=
  { ofLeaf e with page := e.address / 512 * 512 + page % 512 }

end Translation

/-- How the processor reads an entry: level 0 is the page table, level 1 the page
directory, whose entries may map 2 MB pages, and level 3 the PML4. -/
def pageFormat : Format PageTableEntry Translation where
  base := 512
  stops := fun n e => !e.present || (n == 1 && e.hugePage)
  result := fun n e page =>
    if n = 0 then .ofLeaf e else if e.present then .ofHuge e page else .absent
  child := address
  under := .under

/-- The page number of a virtual address: its bits 47 to 12. -/
def pageOf (v : Nat) : Nat := v / 4096 % 2 ^ 36

/-- `translate(root, v)`, for a page number. -/
def translatePage (memory : Nat → Nat → PageTableEntry) (root page : Nat) : Translation :=
  pageFormat.lookup memory 3 (root / 4096) page

/-- `translate(root, v)`. -/
def translate (memory : Nat → Nat → PageTableEntry) (root v : Nat) : Translation :=
  translatePage memory root (pageOf v)

/-- Every labelled table has the entries of its place in the tree. -/
structure Tables (label : Labelling) (memory : Nat → Nat → PageTableEntry) : Prop where
  labelled : pageFormat.Labelled label memory
  /-- Above the last level an entry that is not present is clear. -/
  clear : ∀ t n lead i, label t = some (n + 1, lead) → i < 512 →
    (memory t i).present = false → memory t i = 0
  /-- Above the last level an entry that is present is writable. -/
  writable : ∀ t n lead i, label t = some (n + 1, lead) → i < 512 →
    (memory t i).present = true → (memory t i).readWrite = true
  /-- Only page directories have 2 MB entries, and these are aligned. -/
  huge : ∀ t n lead i, label t = some (n + 1, lead) → i < 512 →
    (memory t i).present = true → (memory t i).hugePage = true →
    n = 0 ∧ (memory t i).address % 512 = 0
  /-- What is open to user mode is so from above. -/
  user : ∀ t n lead i, label t = some (n + 1, lead) → i < 512 →
    pageFormat.stops (n + 1) (memory t i) = false →
    ∀ j < 512, (memory (memory t i).address j).userSupervisor = true →
      (memory t i).userSupervisor = true

/-- Only used frames are labelled, and the free frames can be named by an entry. -/
structure Allocated (label : Labelling) (frames : MemoryManager) : Prop where
  null : label 0 = none
  used : ∀ t, label t ≠ none → frames.bitmap.get t = true
  free : ∀ t, frames.bitmap.get t = false → 0 < t ∧ t < 2 ^ 40

/-- The walk for a page gets down to a table of level `m` through entries that are
writable and, if `user` is set, open to user mode. -/
inductive Opens (memory : Nat → Nat → PageTableEntry) (user : Bool) (page root : Nat) :
    Nat → Nat → Prop
  | root : Opens memory user page root 3 root
  | child {m t : Nat} : Opens memory user page root (m + 1) t →
      pageFormat.stops (m + 1) (memory t (pageFormat.index (m + 1) page)) = false →
      (memory t (pageFormat.index (m + 1) page)).readWrite = true →
      (user = true → (memory t (pageFormat.index (m + 1) page)).userSupervisor = true) →
      Opens memory user page root m (memory t (pageFormat.index (m + 1) page)).address

theorem base_pos : 0 < pageFormat.base := by decide

theorem index_lt_base (n page : Nat) : pageFormat.index n page < 512 :=
  Format.index_lt base_pos n

/-- All page numbers have one place at the top. -/
theorem place_three {page : Nat} (hpage : page < 2 ^ 36) : pageFormat.place 3 page = (3, 0) :=
  congrArg (Prod.mk 3) (Nat.div_eq_of_lt hpage)

theorem stops_eq_false {n : Nat} {e : PageTableEntry} :
    pageFormat.stops n e = false ↔ e.present = true ∧ (n = 1 → e.hugePage = false) := by
  by_cases hn : n = 1 <;> simp [pageFormat, hn]

theorem stops_of_absent {n : Nat} {e : PageTableEntry} (h : e.present = false) :
    pageFormat.stops n e = true := by
  simp [pageFormat, h]

theorem stops_of_huge {e : PageTableEntry} (h : e.hugePage = true) :
    pageFormat.stops 1 e = true := by
  simp [pageFormat, h]

theorem stops_congr {n : Nat} {e e' : PageTableEntry} (hp : e'.present = e.present)
    (hh : e'.hugePage = e.hugePage) : pageFormat.stops n e' = pageFormat.stops n e := by
  simp only [pageFormat, hp, hh]

/-- The table below an entry on the way of a page has the label of the next level. -/
theorem label_address {label : Labelling} {memory : Nat → Nat → PageTableEntry}
    (hl : pageFormat.Labelled label memory) {n t page : Nat}
    (ht : label t = some (pageFormat.place (n + 1) page))
    (hs : pageFormat.stops (n + 1) (memory t (pageFormat.index (n + 1) page)) = false) :
    label (memory t (pageFormat.index (n + 1) page)).address = some (pageFormat.place n page) :=
  hl.child_place base_pos ht hs

theorem lookup_zero (memory : Nat → Nat → PageTableEntry) (t page : Nat) :
    pageFormat.lookup memory 0 t page = .ofLeaf (memory t (pageFormat.index 0 page)) := rfl

theorem result_succ (n : Nat) (e : PageTableEntry) (page : Nat) :
    pageFormat.result (n + 1) e page = if e.present then .ofHuge e page else .absent := rfl

/-- The lookup through an entry that the walk ends at. -/
theorem lookup_of_stops {memory : Nat → Nat → PageTableEntry} {t page n : Nat}
    (h : pageFormat.stops (n + 1) (memory t (pageFormat.index (n + 1) page)) = true) :
    pageFormat.lookup memory (n + 1) t page =
      if (memory t (pageFormat.index (n + 1) page)).present then
        .ofHuge (memory t (pageFormat.index (n + 1) page)) page
      else .absent := by
  rw [Format.lookup, if_pos h, result_succ]

/-- The lookup through an entry that the walk does not end at. -/
theorem lookup_of_not_stops {memory : Nat → Nat → PageTableEntry} {t page n : Nat}
    (h : pageFormat.stops (n + 1) (memory t (pageFormat.index (n + 1) page)) = false) :
    pageFormat.lookup memory (n + 1) t page =
      .under (memory t (pageFormat.index (n + 1) page))
        (pageFormat.lookup memory n (memory t (pageFormat.index (n + 1) page)).address page) := by
  rw [Format.lookup, h]
  rfl

namespace Opens

variable {memory memory' : Nat → Nat → PageTableEntry} {user : Bool} {page root m t : Nat}
  {label : Labelling}

theorem label_eq (h : Opens memory user page root m t) (hl : pageFormat.Labelled label memory)
    (hroot : label root = some (pageFormat.place 3 page)) :
    label t = some (pageFormat.place m page) := by
  induction h with
  | root => exact hroot
  | child _ hs _ _ ih => exact hl.child_place base_pos ih hs

/-- Through such entries the walk gives what it gives from the table it gets down to. -/
theorem lookup_eq (h : Opens memory user page root m t)
    (huser : (pageFormat.lookup memory m t page).user = true → user = true) :
    pageFormat.lookup memory 3 root page = pageFormat.lookup memory m t page := by
  induction h with
  | root => rfl
  | @child m t _ hs hw hu ih =>
    have hstep := lookup_of_not_stops hs
    have hp := (stops_eq_false.mp hs).1
    have hunder : Translation.under (memory t (pageFormat.index (m + 1) page))
        (pageFormat.lookup memory m (memory t (pageFormat.index (m + 1) page)).address page) =
        pageFormat.lookup memory m (memory t (pageFormat.index (m + 1) page)).address page := by
      ext
      · rfl
      · simp [Translation.under, hp]
      · simp [Translation.under, hw]
      · cases hv : (pageFormat.lookup memory m
            (memory t (pageFormat.index (m + 1) page)).address page).user with
        | false => simp [Translation.under, hv]
        | true => simp [Translation.under, hv, hu (huser hv)]
    rw [ih (by rw [hstep, hunder]; exact huser), hstep, hunder]

theorem meets_eq (h : Opens memory user page root m t) :
    m ≤ 3 ∧ ∀ k ≤ m, pageFormat.meets memory k 3 root page =
      pageFormat.meets memory k m t page := by
  induction h with
  | root => exact ⟨le_rfl, fun _ _ => rfl⟩
  | @child m t _ hs _ _ ih =>
    refine ⟨by omega, fun k hk => (ih.2 k (by omega)).trans ?_⟩
    rw [Format.meets, if_neg (by omega)]
    simp only [hs, Bool.false_eq_true, if_false]
    rfl

theorem meets_self (h : Opens memory user page root m t) :
    pageFormat.meets memory m 3 root page = some t := by
  rw [h.meets_eq.2 m le_rfl]
  cases m <;> simp [Format.meets]

/-- The way down to a table survives changes at its level and below. -/
theorem congr (h : Opens memory user page root m t) (hl : pageFormat.Labelled label memory)
    (hroot : label root = some (pageFormat.place 3 page))
    (hsame : ∀ k t, m < k → label t = some (pageFormat.place k page) →
      memory' t (pageFormat.index k page) = memory t (pageFormat.index k page)) :
    Opens memory' user page root m t := by
  induction h with
  | root => exact .root
  | @child m t hup hs hw hu ih =>
    have hup' := ih fun k t hk => hsame k t (by omega)
    have he := hsame (m + 1) t (by omega) (hup.label_eq hl hroot)
    have hc := hup'.child (by rw [he]; exact hs) (by rw [he]; exact hw) (by rw [he]; exact hu)
    rwa [he] at hc

end Opens

end Sylphia
