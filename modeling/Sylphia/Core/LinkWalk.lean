import Mathlib.Data.Finset.Card
import Mathlib.Data.Finset.Range
import Mathlib.Data.Nat.Find
import Mathlib.Logic.Function.Iterate

/-!
# Walks along links

A loop looks at one node after the other, each time at the one that the last links to, until a
node has an outcome. It may go round in a circle. Whether it ends, and where, is read off the
nodes themselves; a bound on its rounds need not be larger than the number of nodes without an
outcome.
-/

namespace LinkWalk

variable {α β : Type*} (next : α → α) (out : α → Option β)

/-- The outcome of a walk that looks at no more than so many nodes. -/
def follow : Nat → α → Option β
  | 0, _ => none
  | n + 1, a =>
    match out a with
    | some b => some b
    | none => follow n (next a)

/-- The first node with an outcome. -/
def EndsAt (a : α) (k : Nat) (b : β) : Prop :=
  out (next^[k] a) = some b ∧ ∀ j < k, out (next^[j] a) = none

variable {next out} {a : α} {b c : β} {k l m n : Nat}

theorem EndsAt.unique (h : EndsAt next out a k b) (h' : EndsAt next out a l c) : k = l ∧ b = c := by
  have hkl : k = l := by
    rcases Nat.lt_trichotomy k l with hlt | heq | hlt
    · have hnone := h'.2 k hlt
      rw [h.1] at hnone
      cases hnone
    · exact heq
    · have hnone := h.2 l hlt
      rw [h'.1] at hnone
      cases hnone
  subst hkl
  exact ⟨rfl, Option.some.inj (h.1.symm.trans h'.1)⟩

theorem EndsAt.tail (h : EndsAt next out (next a) k b) (ha : out a = none) :
    EndsAt next out a (k + 1) b := by
  refine ⟨h.1, fun j hj => ?_⟩
  cases j with
  | zero => exact ha
  | succ j => exact h.2 j (Nat.lt_of_succ_lt_succ hj)

/-- A walk along which some node has an outcome has a first one. -/
theorem exists_endsAt_iff : (∃ k b, EndsAt next out a k b) ↔ ∃ k, (out (next^[k] a)).isSome := by
  constructor
  · rintro ⟨k, b, h, -⟩
    exact ⟨k, by rw [h]; rfl⟩
  · intro h
    obtain ⟨b, hb⟩ := Option.isSome_iff_exists.mp (Nat.find_spec h)
    refine ⟨Nat.find h, b, hb, fun j hj => ?_⟩
    have hmin := Nat.find_min h hj
    rwa [Bool.not_eq_true, Option.isSome_eq_false_iff, Option.isNone_iff_eq_none] at hmin

/-- The outcome of a walk is that of the first node that has one. -/
theorem follow_eq_some_iff :
    follow next out n a = some b ↔ ∃ k < n, EndsAt next out a k b := by
  induction n generalizing a with
  | zero => simp [follow]
  | succ n ih =>
    rw [follow]
    cases ha : out a with
    | some c =>
      have hhere : EndsAt next out a 0 c := ⟨ha, fun j hj => absurd hj (Nat.not_lt_zero j)⟩
      constructor
      · intro h
        exact ⟨0, Nat.succ_pos n, Option.some.inj h ▸ hhere⟩
      · rintro ⟨k, -, h⟩
        exact congrArg some (hhere.unique h).2
    | none =>
      refine ih.trans ⟨?_, ?_⟩
      · rintro ⟨k, hk, h⟩
        exact ⟨k + 1, Nat.succ_lt_succ hk, h.tail ha⟩
      · rintro ⟨k, hk, h⟩
        cases k with
        | zero => exact absurd (ha.symm.trans h.1) (by simp)
        | succ k =>
          exact ⟨k, Nat.lt_of_succ_lt_succ hk, h.1, fun j hj => h.2 (j + 1) (Nat.succ_lt_succ hj)⟩

/-- With more rounds a walk has the outcome that it has. -/
theorem follow_of_le (h : follow next out n a = some b) (hle : n ≤ m) :
    follow next out m a = some b := by
  rw [follow_eq_some_iff] at h ⊢
  obtain ⟨k, hk, hend⟩ := h
  exact ⟨k, hk.trans_le hle, hend⟩

theorem exists_follow_eq_some_iff :
    (∃ n, follow next out n a = some b) ↔ ∃ k, EndsAt next out a k b := by
  simp only [follow_eq_some_iff]
  constructor
  · rintro ⟨_, k, -, h⟩
    exact ⟨k, h⟩
  · rintro ⟨k, h⟩
    exact ⟨k + 1, k, Nat.lt_succ_self k, h⟩

/-- Some bound lets a walk end exactly when there is a node with an outcome along it. -/
theorem exists_follow_iff :
    (∃ n, (follow next out n a).isSome) ↔ ∃ k, (out (next^[k] a)).isSome := by
  rw [← exists_endsAt_iff]
  simp only [Option.isSome_iff_exists]
  constructor
  · rintro ⟨n, b, h⟩
    obtain ⟨k, -, hend⟩ := follow_eq_some_iff.mp h
    exact ⟨k, b, hend⟩
  · rintro ⟨k, b, h⟩
    exact ⟨k + 1, b, follow_eq_some_iff.mpr ⟨k, Nat.lt_succ_self k, h⟩⟩

/-- A walk that ends looks at no node twice. -/
theorem EndsAt.injOn (h : EndsAt next out a k b) {i j : Nat} (hij : i < j) (hj : j ≤ k) :
    next^[i] a ≠ next^[j] a := by
  intro heq
  -- From the `i`-th node on, the end would come as soon as from the `j`-th.
  have hsame : next^[i + (k - j)] a = next^[k] a := by
    rw [Nat.add_comm, Function.iterate_add_apply, heq, ← Function.iterate_add_apply,
      Nat.sub_add_cancel hj]
  have hnone := h.2 (i + (k - j)) (by omega)
  rw [hsame, h.1] at hnone
  cases hnone

/-- As many rounds are enough as there are nodes without an outcome, and one more. -/
theorem EndsAt.lt_of_card (h : EndsAt next out a k b) {S : Finset α}
    (hS : ∀ j < k, next^[j] a ∈ S) (hn : S.card < n) : k < n := by
  refine lt_of_le_of_lt ?_ hn
  have hmaps : Set.MapsTo (fun i => next^[i] a) (Finset.range k) S := fun i hi =>
    hS i (Finset.mem_range.mp hi)
  have hinj : Set.InjOn (fun i => next^[i] a) (Finset.range k) := by
    intro i hi j hj heq
    have hi := Finset.mem_range.mp hi
    have hj := Finset.mem_range.mp hj
    rcases Nat.lt_trichotomy i j with hlt | heq' | hlt
    · exact absurd heq (h.injOn hlt hj.le)
    · exact heq'
    · exact absurd heq.symm (h.injOn hlt hi.le)
  have hcard := Finset.card_le_card_of_injOn _ hmaps hinj
  rwa [Finset.card_range] at hcard

/-- Where the nodes without an outcome are so few, a walk ends within the bound or never. -/
theorem follow_card {S : Finset α}
    (hS : ∀ j, (∀ i ≤ j, out (next^[i] a) = none) → next^[j] a ∈ S) (hn : S.card < n) :
    follow next out n a = some b ↔ ∃ k, EndsAt next out a k b := by
  rw [follow_eq_some_iff]
  constructor
  · rintro ⟨k, -, h⟩
    exact ⟨k, h⟩
  · rintro ⟨k, h⟩
    exact ⟨k, h.lt_of_card (fun j hj => hS j fun i hi => h.2 i (lt_of_le_of_lt hi hj)) hn, h⟩

end LinkWalk
