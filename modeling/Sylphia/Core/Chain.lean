import Mathlib.Data.List.Basic
import Mathlib.Data.List.Nodup
import Mathlib.Logic.Relation

/-!
# Chains in a table of successors

A table gives every cell its successor. A chain runs from its first cell through valid
cells to one whose successor is an end mark. Tables may hold many chains; what a write
changes is read off the cells that a chain has.
-/

namespace Chain

/-- What the successors mean. -/
structure Links (α : Type*) where
  /-- The cells that a chain may have. -/
  valid : α → Prop
  /-- The marks that end a chain. -/
  ends : α → Prop
  not_ends : ∀ c, valid c → ¬ends c

variable {α : Type*} (L : Links α)

/-- The chain from a cell has exactly these cells, in this order. -/
inductive IsChain (next : α → α) : α → List α → Prop
  | last {c : α} : L.valid c → L.ends (next c) → IsChain next c [c]
  | cons {c : α} {cs : List α} : L.valid c → IsChain next (next c) cs → IsChain next c (c :: cs)

namespace IsChain

variable {L} {next next' : α → α} {c d x : α} {cs ds : List α}

theorem valid_head (h : IsChain L next c cs) : L.valid c := by
  cases h with
  | last hv _ => exact hv
  | cons hv _ => exact hv

theorem valid (h : IsChain L next c cs) (hx : x ∈ cs) : L.valid x := by
  induction h with
  | last hv _ =>
    rw [List.mem_singleton] at hx
    exact hx ▸ hv
  | cons hv _ ih =>
    rcases List.mem_cons.mp hx with rfl | hx
    · exact hv
    · exact ih hx

theorem head?_eq (h : IsChain L next c cs) : cs.head? = some c := by
  cases h with
  | last => rfl
  | cons => rfl

theorem head_mem (h : IsChain L next c cs) : c ∈ cs := List.mem_of_head? h.head?_eq

/-- A cell has at most one chain. -/
theorem unique (h : IsChain L next c cs) (h' : IsChain L next c ds) : cs = ds := by
  induction h generalizing ds with
  | last _ hends =>
    cases h' with
    | last => rfl
    | cons _ hrest => exact absurd hends (L.not_ends _ hrest.valid_head)
  | cons _ hrest ih =>
    cases h' with
    | last _ hends => exact absurd hends (L.not_ends _ hrest.valid_head)
    | cons _ hrest' => rw [ih hrest']

theorem congr (h : IsChain L next c cs) (hsame : ∀ x ∈ cs, next' x = next x) :
    IsChain L next' c cs := by
  induction h with
  | @last c hv hends =>
    refine .last hv ?_
    rw [hsame c (List.mem_cons_self ..)]
    exact hends
  | @cons c cs hv _ ih =>
    refine .cons hv ?_
    rw [hsame c (List.mem_cons_self ..)]
    exact ih fun x hx => hsame x (List.mem_cons_of_mem _ hx)

/-- From each of its cells a chain goes on as a chain. -/
theorem suffix (h : IsChain L next c cs) (hx : x ∈ cs) :
    ∃ ds, IsChain L next x ds ∧ ds <:+ cs := by
  induction h with
  | @last c hv hends =>
    rw [List.mem_singleton] at hx
    subst hx
    exact ⟨[x], .last hv hends, List.suffix_rfl⟩
  | @cons c cs hv hrest ih =>
    rcases List.mem_cons.mp hx with rfl | hx
    · exact ⟨x :: cs, .cons hv hrest, List.suffix_rfl⟩
    · obtain ⟨ds, hds, hsuf⟩ := ih hx
      exact ⟨ds, hds, hsuf.trans (List.suffix_cons ..)⟩

/-- A chain that ends meets no cell twice. -/
theorem nodup (h : IsChain L next c cs) : cs.Nodup := by
  induction h with
  | last => exact List.nodup_singleton _
  | @cons c cs hv hrest ih =>
    refine List.nodup_cons.mpr ⟨fun hc => ?_, ih⟩
    obtain ⟨ds, hds, hsuf⟩ := hrest.suffix hc
    have hlen := congrArg List.length (hds.unique (.cons hv hrest))
    have hle := hsuf.length_le
    rw [List.length_cons] at hlen
    omega

/-- The last cell of a chain, before its end mark. -/
theorem exists_last (h : IsChain L next c cs) :
    ∃ ds l, cs = ds ++ [l] ∧ L.ends (next l) := by
  induction h with
  | @last c _ hends => exact ⟨[], c, rfl, hends⟩
  | @cons c cs _ _ ih =>
    obtain ⟨ds, l, rfl, hends⟩ := ih
    exact ⟨c :: ds, l, rfl, hends⟩

theorem of_cons (h : IsChain L next c (x :: cs)) (hne : cs ≠ []) :
    c = x ∧ L.valid x ∧ IsChain L next (next x) cs := by
  cases h with
  | last => exact absurd rfl hne
  | cons hv hrest => exact ⟨rfl, hv, hrest⟩

/-- A chain is lengthened by writing to its last cell. -/
theorem append {l : α} (h : IsChain L next c (cs ++ [l])) (hd : IsChain L next' d ds)
    (hl : next' l = d) (hsame : ∀ x ∈ cs, next' x = next x) :
    IsChain L next' c (cs ++ [l] ++ ds) := by
  induction cs generalizing c with
  | nil =>
    cases h with
    | last hv _ => exact .cons hv (hl ▸ hd)
    | cons _ hrest => cases hrest
  | cons y cs ih =>
    obtain ⟨rfl, hv, hrest⟩ := h.of_cons (by simp)
    refine .cons hv ?_
    rw [hsame c (List.mem_cons_self ..)]
    exact ih hrest fun x hx => hsame x (List.mem_cons_of_mem _ hx)

/-- The end mark of a chain is replaced by another. -/
theorem close {l : α} (h : IsChain L next c (cs ++ [l])) (hl : L.ends (next' l))
    (hsame : ∀ x ∈ cs, next' x = next x) : IsChain L next' c (cs ++ [l]) := by
  induction cs generalizing c with
  | nil =>
    cases h with
    | last hv _ => exact .last hv hl
    | cons _ hrest => cases hrest
  | cons y cs ih =>
    obtain ⟨rfl, hv, hrest⟩ := h.of_cons (by simp)
    refine .cons hv ?_
    rw [hsame c (List.mem_cons_self ..)]
    exact ih hrest fun x hx => hsame x (List.mem_cons_of_mem _ hx)

end IsChain

open Relation in
/-- What is met from a cell is the cell itself, and what is met from its successors without
leaving the cell a second time. -/
theorem met_iff_cut {r : α → α → Prop} {c x : α} :
    ReflTransGen r c x ↔ x = c ∨ ∃ d, r c d ∧ ReflTransGen (fun a b => r a b ∧ a ≠ c) d x := by
  constructor
  · intro h
    induction h with
    | refl => exact Or.inl rfl
    | @tail y z _ hyz ih =>
      by_cases hy : y = c
      · exact Or.inr ⟨z, hy ▸ hyz, .refl⟩
      · obtain ⟨d, hd, hdy⟩ := ih.resolve_left hy
        exact Or.inr ⟨d, hd, hdy.tail ⟨hyz, hy⟩⟩
  · rintro (rfl | ⟨d, hd, hdx⟩)
    · exact .refl
    · exact .head hd (ReflTransGen.mono (fun _ _ h => h.1) d x hdx)

end Chain
