import Mathlib.Data.List.Basic
import Mathlib.Data.Set.Lattice
import Mathlib.Order.CompletePartialOrder

/-!
# Ownership ledgers

Cells are claimed by regions out of a shared pool. A ledger is balanced when the
regions in force are pairwise disjoint, avoid the reserved cells, and account for
exactly the used cells that were not reserved from the start. Acquiring a region
of unused cells and releasing a region in force both keep a ledger balanced, in
any order.
-/

namespace Sylphia.Ledger

variable {α ρ : Type*}

/-- The regions in force are disjoint and account for all used, unreserved cells. -/
structure Balanced (reserved used : Set α) (cells : ρ → Set α) (live : List ρ) : Prop where
  /-- No two regions in force share a cell. -/
  disjoint : live.Pairwise fun r s => Disjoint (cells r) (cells s)
  /-- No region in force claims a reserved cell. -/
  unreserved : ∀ r ∈ live, Disjoint (cells r) reserved
  /-- A cell is used exactly when it is reserved or owned. -/
  accounts : ∀ a, a ∈ used ↔ a ∈ reserved ∨ ∃ r ∈ live, a ∈ cells r

/-- With nothing in force, exactly the reserved cells are used. -/
theorem balanced_nil (reserved : Set α) (cells : ρ → Set α) :
    Balanced reserved reserved cells [] where
  disjoint := List.Pairwise.nil
  unreserved := by simp
  accounts := by simp

/-- Cells owned by a region in force are used. -/
theorem Balanced.subset_used {reserved used : Set α} {cells : ρ → Set α} {live : List ρ}
    (h : Balanced reserved used cells live) {r : ρ} (hr : r ∈ live) : cells r ⊆ used :=
  fun a ha => (h.accounts a).mpr (Or.inr ⟨r, hr, ha⟩)

/-- Acquiring a region of unused cells keeps the ledger balanced. -/
theorem Balanced.acquire {reserved used used' : Set α} {cells : ρ → Set α} {live : List ρ}
    (h : Balanced reserved used cells live) (r : ρ) (hfree : Disjoint (cells r) used)
    (hused : ∀ a, a ∈ used' ↔ a ∈ used ∨ a ∈ cells r) :
    Balanced reserved used' cells (r :: live) where
  disjoint := by
    refine List.pairwise_cons.mpr ⟨fun s hs => ?_, h.disjoint⟩
    exact hfree.mono_right (h.subset_used hs)
  unreserved := by
    intro s hs
    rcases List.mem_cons.mp hs with rfl | hs
    · exact hfree.mono_right fun a ha => (h.accounts a).mpr (Or.inl ha)
    · exact h.unreserved s hs
  accounts := by
    intro a
    rw [hused, h.accounts]
    simp only [List.mem_cons, exists_eq_or_imp]
    rw [or_assoc, or_comm (a := ∃ s ∈ live, a ∈ cells s)]

/-- Two regions in force at different places of the ledger share no cell. -/
theorem Balanced.disjoint_erase [DecidableEq ρ] {reserved used : Set α} {cells : ρ → Set α}
    {live : List ρ} (h : Balanced reserved used cells live) {r s : ρ} (hr : r ∈ live)
    (hs : s ∈ live.erase r) : Disjoint (cells r) (cells s) := by
  have hp : (r :: live.erase r).Pairwise fun r s => Disjoint (cells r) (cells s) :=
    ((List.perm_cons_erase hr).pairwise_iff fun hab => hab.symm).mp h.disjoint
  exact (List.pairwise_cons.mp hp).1 s hs

/-- Releasing a region in force keeps the ledger balanced. -/
theorem Balanced.release [DecidableEq ρ] {reserved used used' : Set α} {cells : ρ → Set α}
    {live : List ρ} (h : Balanced reserved used cells live) {r : ρ} (hr : r ∈ live)
    (hused : ∀ a, a ∈ used' ↔ a ∈ used ∧ a ∉ cells r) :
    Balanced reserved used' cells (live.erase r) where
  disjoint := h.disjoint.sublist List.erase_sublist
  unreserved := fun s hs => h.unreserved s (List.mem_of_mem_erase hs)
  accounts := by
    intro a
    rw [hused, h.accounts]
    constructor
    · rintro ⟨ha | ⟨s, hs, ha⟩, hn⟩
      · exact Or.inl ha
      · rcases List.mem_cons.mp ((List.perm_cons_erase hr).mem_iff.mp hs) with rfl | hs
        · exact absurd ha hn
        · exact Or.inr ⟨s, hs, ha⟩
    · rintro (ha | ⟨s, hs, ha⟩)
      · exact ⟨Or.inl ha, fun hc => Set.disjoint_left.mp (h.unreserved r hr) hc ha⟩
      · exact ⟨Or.inr ⟨s, List.mem_of_mem_erase hs, ha⟩,
          fun hc => Set.disjoint_left.mp (h.disjoint_erase hr hs) hc ha⟩

/-- Once every region has been released, exactly the reserved cells are used. -/
theorem Balanced.eq_reserved {reserved used : Set α} {cells : ρ → Set α}
    (h : Balanced reserved used cells []) : used = reserved := by
  ext a
  simpa using h.accounts a

end Sylphia.Ledger
