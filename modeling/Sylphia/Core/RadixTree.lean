import Mathlib.Data.Nat.Init
import Mathlib.Algebra.Order.Ring.Nat

/-!
# Radix trees in a table memory

Tables are numbered and hold entries; a key is looked up level by level, one digit at a
time, through the tables that the entries name. Every table that can be met carries a
label, its level and the leading digits of the keys that meet it, so that what a write
can change is read off the label of the table it is made to. Tables may be shared.
-/

namespace RadixTree

/-- How a walk reads an entry. -/
structure Format (E T : Type*) where
  /-- The number of entries of a table. -/
  base : Nat
  /-- The walk ends at such an entry of a table above level 0. -/
  stops : Nat → E → Bool
  /-- What a walk gives that ends at an entry of a table of this level, for a key. -/
  result : Nat → E → Nat → T
  /-- The table that the walk goes on to. -/
  child : E → Nat
  /-- What the entry makes of the result found below it. -/
  under : E → T → T

/-- A labelling of tables by their level and the leading digits of their keys. -/
abbrev Labelling := Nat → Option (Nat × Nat)

/-- The labels after a table has been given one. -/
theorem update_eq_some {label : Labelling} {c t : Nat} {x y : Nat × Nat} :
    Function.update label c (some x) t = some y ↔ t = c ∧ y = x ∨ t ≠ c ∧ label t = some y := by
  by_cases ht : t = c
  · subst ht
    simp [eq_comm]
  · simp [ht]

open Classical in
/-- The labelling of the tables with a property. -/
noncomputable def restrict (label : Labelling) (P : Nat → Prop) : Labelling :=
  fun t => if P t then label t else none

theorem restrict_eq_some {label : Labelling} {P : Nat → Prop} {t : Nat} {x : Nat × Nat} :
    restrict label P t = some x ↔ P t ∧ label t = some x := by
  by_cases hp : P t <;> simp [restrict, hp]

variable {E T : Type*} (fmt : Format E T)

namespace Format

/-- The digit of a key at a level. -/
def index (n key : Nat) : Nat := key / fmt.base ^ n % fmt.base

/-- Look a key up from a table of level `n`. -/
def lookup (mem : Nat → Nat → E) : Nat → Nat → Nat → T
  | 0, table, key => fmt.result 0 (mem table (fmt.index 0 key)) key
  | n + 1, table, key =>
    let e := mem table (fmt.index (n + 1) key)
    if fmt.stops (n + 1) e then fmt.result (n + 1) e key
    else fmt.under e (lookup mem n (fmt.child e) key)

/-- The entries of labelled tables lead to tables with the label of their place. -/
def Labelled (label : Labelling) (mem : Nat → Nat → E) : Prop :=
  ∀ table n lead i, label table = some (n + 1, lead) → i < fmt.base →
    fmt.stops (n + 1) (mem table i) = false →
    label (fmt.child (mem table i)) = some (n, lead * fmt.base + i)

/-- The label of the tables of level `n` that the lookup of a key can meet. -/
def place (n key : Nat) : Nat × Nat := (n, key / fmt.base ^ (n + 1))

/-- The table of level `m` that the lookup of a key meets, if it gets there. -/
def meets (mem : Nat → Nat → E) (m : Nat) : Nat → Nat → Nat → Option Nat
  | 0, table, _ => if m = 0 then some table else none
  | n + 1, table, key =>
    if m = n + 1 then some table
    else
      let e := mem table (fmt.index (n + 1) key)
      if fmt.stops (n + 1) e then none else meets mem m n (fmt.child e) key

variable {fmt} {label : Labelling} {mem mem' : Nat → Nat → E} {key : Nat}

theorem index_lt (hb : 0 < fmt.base) (n : Nat) : fmt.index n key < fmt.base := Nat.mod_lt _ hb

/-- The leading digits and the next digit of a key. -/
theorem lead_mul_add_index (n : Nat) :
    key / fmt.base ^ (n + 1) * fmt.base + fmt.index n key = key / fmt.base ^ n := by
  rw [index, pow_succ, ← Nat.div_div_eq_div_mul, Nat.mul_comm]
  exact Nat.div_add_mod _ _

/-- One step of the walk goes from the key's place to its next place. -/
theorem Labelled.child_place (h : fmt.Labelled label mem) (hb : 0 < fmt.base) {n table : Nat}
    (ht : label table = some (fmt.place (n + 1) key))
    (hs : fmt.stops (n + 1) (mem table (fmt.index (n + 1) key)) = false) :
    label (fmt.child (mem table (fmt.index (n + 1) key))) = some (fmt.place n key) := by
  rw [h table n _ _ ht (index_lt hb _) hs, lead_mul_add_index, place]

theorem meets_top (mem : Nat → Nat → E) (n table key : Nat) :
    fmt.meets mem n n table key = some table := by
  cases n <;> simp [meets]

/-- A lookup meets no table above the one it starts from. -/
theorem le_of_meets {m n table t : Nat} (h : fmt.meets mem m n table key = some t) : m ≤ n := by
  induction n generalizing table with
  | zero =>
    rw [meets] at h
    split at h
    · omega
    · cases h
  | succ n ih =>
    rw [meets] at h
    split at h
    · omega
    · dsimp only at h
      split at h
      · cases h
      · exact Nat.le_succ_of_le (ih h)

/-- A table that a lookup meets has the label of the key's place. -/
theorem Labelled.meets_place (h : fmt.Labelled label mem) (hb : 0 < fmt.base) {m n table t : Nat}
    (ht : label table = some (fmt.place n key)) (hm : fmt.meets mem m n table key = some t) :
    label t = some (fmt.place m key) := by
  induction n generalizing table with
  | zero =>
    rw [meets] at hm
    split at hm
    · next hz =>
      rw [← Option.some.inj hm, ht, hz]
    · cases hm
  | succ n ih =>
    rw [meets] at hm
    split at hm
    · next hz =>
      rw [← Option.some.inj hm, ht, hz]
    · dsimp only at hm
      split at hm
      · cases hm
      · next hs => exact ih (h.child_place hb ht (by simpa using hs)) hm

/-- From the table it meets at one level a lookup goes on to the next. -/
theorem meets_below {m n table t : Nat} (h : fmt.meets mem (m + 1) n table key = some t) :
    fmt.meets mem m n table key =
      if fmt.stops (m + 1) (mem t (fmt.index (m + 1) key)) then none
      else some (fmt.child (mem t (fmt.index (m + 1) key))) := by
  induction n generalizing table with
  | zero => simp [meets] at h
  | succ n ih =>
    by_cases hm : m = n
    · subst hm
      rw [meets, if_pos rfl, Option.some.injEq] at h
      rw [meets, if_neg (by omega), h]
      dsimp only
      rw [meets_top]
    · rw [meets, if_neg (by omega)] at h
      dsimp only at h
      split at h
      · cases h
      · next hs =>
        have hmn : m ≠ n + 1 := by
          have hle := le_of_meets h
          omega
        rw [meets, if_neg hmn, if_neg hs]
        exact ih h

/-- Which table a lookup meets depends on the leading digits of the key. -/
theorem meets_of_lead {key' m n table : Nat} (hm : m ≤ n)
    (h : key' / fmt.base ^ (m + 1) = key / fmt.base ^ (m + 1)) :
    fmt.meets mem m n table key' = fmt.meets mem m n table key := by
  induction n generalizing table with
  | zero => rfl
  | succ n ih =>
    rw [meets, meets]
    split
    · rfl
    · next hne =>
      have hpow : fmt.base ^ (n + 1) = fmt.base ^ (m + 1) * fmt.base ^ (n - m) := by
        rw [← pow_add]
        congr 1
        omega
      have hindex : fmt.index (n + 1) key' = fmt.index (n + 1) key := by
        rw [index, index, hpow, ← Nat.div_div_eq_div_mul, ← Nat.div_div_eq_div_mul, h]
      rw [hindex]
      dsimp only
      split
      · rfl
      · exact ih (by omega)

/-- Each table below a table that is met is met, too, by some key under the same root. -/
theorem meets_child (hb : 0 < fmt.base) {n top root t i : Nat}
    (hm : fmt.meets mem (n + 1) top root key = some t) (hi : i < fmt.base)
    (hs : fmt.stops (n + 1) (mem t i) = false) :
    ∃ key', key' / fmt.base ^ (top + 1) = key / fmt.base ^ (top + 1) ∧
      fmt.meets mem n top root key' = some (fmt.child (mem t i)) := by
  have htop := le_of_meets hm
  -- The key with the digits that lead to the table, then `i`, then zeros.
  obtain ⟨key', hkey⟩ : ∃ k, k = (key / fmt.base ^ (n + 2) * fmt.base + i) * fmt.base ^ (n + 1) :=
    ⟨_, rfl⟩
  have hdiv : key' / fmt.base ^ (n + 1) = key / fmt.base ^ (n + 2) * fmt.base + i := by
    rw [hkey, Nat.mul_div_cancel _ (Nat.pow_pos hb)]
  have hlead : key' / fmt.base ^ (n + 2) = key / fmt.base ^ (n + 2) := by
    conv_lhs => rw [pow_succ, ← Nat.div_div_eq_div_mul, hdiv]
    rw [Nat.mul_comm, Nat.mul_add_div hb, Nat.div_eq_of_lt hi, Nat.add_zero]
  have hindex : fmt.index (n + 1) key' = i := by
    rw [index, hdiv, Nat.mul_comm, Nat.mul_add_mod, Nat.mod_eq_of_lt hi]
  refine ⟨key', ?_, ?_⟩
  · have hpow : fmt.base ^ (top + 1) = fmt.base ^ (n + 2) * fmt.base ^ (top - (n + 1)) := by
      rw [← pow_add]
      congr 1
      omega
    rw [hpow, ← Nat.div_div_eq_div_mul, ← Nat.div_div_eq_div_mul, hlead]
  · rw [← meets_of_lead htop hlead] at hm
    rw [meets_below hm, hindex, hs, if_neg Bool.false_ne_true]

/-- Which table a lookup meets depends on the entries it reads above. -/
theorem meets_congr {m n table : Nat} (hm : m ≤ n)
    (hread : ∀ k t, m < k → fmt.meets mem k n table key = some t →
      mem' t (fmt.index k key) = mem t (fmt.index k key)) :
    fmt.meets mem' m n table key = fmt.meets mem m n table key := by
  induction n generalizing table with
  | zero => rfl
  | succ n ih =>
    rw [meets, meets]
    split
    · rfl
    · next hne =>
      rw [hread (n + 1) table (by omega) (by simp [meets])]
      dsimp only
      split
      · rfl
      · next hs =>
        refine ih (by omega) fun k t hk ht => hread k t hk ?_
        by_cases hkn : k = n + 1
        · subst hkn
          exact absurd (le_of_meets ht) (Nat.not_succ_le_self n)
        · rw [meets, if_neg hkn, if_neg hs]
          exact ht

/-- Above a table that a lookup meets it has met one at each level. -/
theorem exists_meets_above {k m n table t : Nat} (h : fmt.meets mem m n table key = some t)
    (hmk : m ≤ k) (hkn : k ≤ n) : ∃ s, fmt.meets mem k n table key = some s := by
  induction n generalizing table with
  | zero => exact ⟨table, by rw [meets, if_pos (by omega)]⟩
  | succ n ih =>
    by_cases hk : k = n + 1
    · exact ⟨table, by rw [meets, if_pos hk]⟩
    · rw [meets, if_neg (by omega)] at h
      rw [meets, if_neg hk]
      dsimp only at h ⊢
      split at h
      · cases h
      · next hs =>
        rw [if_neg hs]
        exact ih h (by omega)

/-- Where a lookup has met no table of one level it meets none below. -/
theorem meets_eq_none_of_le {k m n table : Nat} (h : fmt.meets mem k n table key = none)
    (hmk : m ≤ k) (hkn : k ≤ n) : fmt.meets mem m n table key = none := by
  cases hm : fmt.meets mem m n table key with
  | none => rfl
  | some t =>
    obtain ⟨s, hs⟩ := exists_meets_above hm hmk hkn
    rw [h] at hs
    cases hs

/-- Below an entry that it ends at a lookup meets no table. -/
theorem meets_eq_none_of_stops {k m n table t : Nat}
    (h : fmt.meets mem (m + 1) n table key = some t) (hn : m + 1 ≤ n)
    (hs : fmt.stops (m + 1) (mem t (fmt.index (m + 1) key)) = true) (hk : k ≤ m) :
    fmt.meets mem k n table key = none := by
  refine meets_eq_none_of_le ?_ hk (by omega)
  rw [meets_below h, if_pos hs]

/-- Two forests whose tables at a place stop at the same entries have the same tables. -/
theorem meets_of_alike {label' : Labelling} (h : fmt.Labelled label mem)
    (h' : fmt.Labelled label' mem') (hb : 0 < fmt.base) {n table table' : Nat}
    (ht : label table = some (fmt.place n key)) (ht' : label' table' = some (fmt.place n key))
    (hsame : ∀ m t t', fmt.meets mem (m + 1) n table key = some t →
      label t = some (fmt.place (m + 1) key) → label' t' = some (fmt.place (m + 1) key) →
      fmt.stops (m + 1) (mem' t' (fmt.index (m + 1) key)) =
        fmt.stops (m + 1) (mem t (fmt.index (m + 1) key))) {k : Nat} (hk : k ≤ n) :
    (fmt.meets mem' k n table' key).isSome = (fmt.meets mem k n table key).isSome := by
  induction hk using Nat.decreasingInduction with
  | self =>
    rw [meets_top, meets_top]
    rfl
  | of_succ k hk ih =>
    cases hm : fmt.meets mem (k + 1) n table key with
    | none =>
      rw [hm, Option.isSome_none, Option.isSome_eq_false_iff, Option.isNone_iff_eq_none] at ih
      rw [meets_eq_none_of_le ih (Nat.le_succ k) hk, meets_eq_none_of_le hm (Nat.le_succ k) hk]
    | some t =>
      rw [hm, Option.isSome_some, Option.isSome_iff_exists] at ih
      obtain ⟨t', ht''⟩ := ih
      have hs := hsame k t t' hm (h.meets_place hb ht hm) (h'.meets_place hb ht' ht'')
      rw [meets_below hm, meets_below ht'', hs]
      split <;> rfl

/-- The links of labelled tables stay as they are. -/
def Extends (fmt : Format E T) (label : Labelling) (mem mem' : Nat → Nat → E) : Prop :=
  ∀ t n lead i, label t = some (n + 1, lead) → i < fmt.base →
    fmt.stops (n + 1) (mem t i) = false →
    fmt.stops (n + 1) (mem' t i) = false ∧ fmt.child (mem' t i) = fmt.child (mem t i)

/-- Where links stay, a lookup meets the tables it met. -/
theorem Extends.meets (he : fmt.Extends label mem mem') (h : fmt.Labelled label mem)
    (hb : 0 < fmt.base) {m n table t : Nat} (ht : label table = some (fmt.place n key))
    (hm : fmt.meets mem m n table key = some t) : fmt.meets mem' m n table key = some t := by
  induction n generalizing table with
  | zero => exact hm
  | succ n ih =>
    rw [Format.meets] at hm ⊢
    split at hm
    · next hz =>
      rw [if_pos hz]
      exact hm
    · next hz =>
      rw [if_neg hz]
      dsimp only at hm ⊢
      split at hm
      · cases hm
      · next hs =>
        have hs' : fmt.stops (n + 1) (mem table (fmt.index (n + 1) key)) = false := by
          simpa using hs
        obtain ⟨hstop, hchild⟩ := he table n _ _ ht (index_lt hb _) hs'
        rw [hstop, if_neg Bool.false_ne_true, hchild]
        exact ih (h.child_place hb ht hs') hm

theorem Extends.trans {label' : Labelling} {mem'' : Nat → Nat → E}
    (he : fmt.Extends label mem mem') (he' : fmt.Extends label' mem' mem'')
    (hl : ∀ t x, label t = some x → label' t = some x) : fmt.Extends label mem mem'' := by
  intro t n lead i ht hi hs
  obtain ⟨hs', hc'⟩ := he t n lead i ht hi hs
  obtain ⟨hs'', hc''⟩ := he' t n lead i (hl t _ ht) hi hs'
  exact ⟨hs'', hc''.trans hc'⟩

/-- Where all entries of labelled tables link as before, a lookup meets the same tables. -/
theorem meets_of_same_links (h : fmt.Labelled label mem) (hb : 0 < fmt.base)
    (hsame : ∀ t n lead i, label t = some (n + 1, lead) → i < fmt.base →
      fmt.stops (n + 1) (mem' t i) = fmt.stops (n + 1) (mem t i) ∧
        fmt.child (mem' t i) = fmt.child (mem t i)) {m n table : Nat}
    (ht : label table = some (fmt.place n key)) :
    fmt.meets mem' m n table key = fmt.meets mem m n table key := by
  induction n generalizing table with
  | zero => rfl
  | succ n ih =>
    obtain ⟨hstop, hchild⟩ := hsame table n _ _ ht (index_lt hb _)
    rw [meets, meets]
    split
    · rfl
    · dsimp only
      rw [hstop, hchild]
      split
      · rfl
      · next hs => exact ih (h.child_place hb ht (by simpa using hs))

/-- A lookup reads only the entries at the key's own places. -/
theorem lookup_congr (h : fmt.Labelled label mem) (hb : 0 < fmt.base) {n table : Nat}
    (ht : label table = some (fmt.place n key))
    (hread : ∀ m ≤ n, ∀ t, label t = some (fmt.place m key) →
      mem' t (fmt.index m key) = mem t (fmt.index m key)) :
    fmt.lookup mem' n table key = fmt.lookup mem n table key := by
  induction n generalizing table with
  | zero => rw [lookup, lookup, hread 0 le_rfl table ht]
  | succ n ih =>
    rw [lookup, lookup, hread (n + 1) le_rfl table ht]
    split
    · rfl
    · next hs =>
      rw [ih (h.child_place hb ht (by simpa using hs)) fun m hm => hread m (Nat.le_succ_of_le hm)]

/-- The two memories differ, on labelled tables, in at most one entry. -/
def SameBut (label : Labelling) (mem mem' : Nat → Nat → E) (table i : Nat) : Prop :=
  ∀ t j, label t ≠ none → ¬(t = table ∧ j = i) → mem' t j = mem t j

/-- A write changes no lookup that does not pass through the entry written. -/
theorem lookup_of_place_ne (h : fmt.Labelled label mem) (hb : 0 < fmt.base) {t₀ i₀ m lead : Nat}
    (hw : SameBut label mem mem' t₀ i₀) (h₀ : label t₀ = some (m, lead)) {n table : Nat}
    (ht : label table = some (fmt.place n key))
    (hne : key / fmt.base ^ m ≠ lead * fmt.base + i₀) :
    fmt.lookup mem' n table key = fmt.lookup mem n table key := by
  refine lookup_congr h hb ht fun k _ t hlab => hw t _ (by simp [hlab]) ?_
  rintro ⟨rfl, hi⟩
  -- The entry read at this table is the one written only for keys below it.
  rw [hlab, place] at h₀
  obtain ⟨rfl, rfl⟩ := Prod.mk.inj (Option.some.inj h₀)
  rw [← hi, lead_mul_add_index] at hne
  exact hne rfl

/-- A write changes for no key the tables that its lookup meets above the entry written. -/
theorem meets_of_level_le (h : fmt.Labelled label mem) (hb : 0 < fmt.base) {t₀ i₀ m lead : Nat}
    (hw : SameBut label mem mem' t₀ i₀) (h₀ : label t₀ = some (m, lead)) {k n table : Nat}
    (ht : label table = some (fmt.place n key)) (hmk : m ≤ k) (hkn : k ≤ n) :
    fmt.meets mem' k n table key = fmt.meets mem k n table key := by
  refine meets_congr hkn fun l t hl hm => ?_
  have hlab := h.meets_place hb ht hm
  refine hw t _ (by simp [hlab]) ?_
  rintro ⟨rfl, -⟩
  rw [h₀, place, Option.some.injEq, Prod.mk.injEq] at hlab
  omega

/-- A write changes no table that a lookup meets which does not pass through the entry. -/
theorem meets_of_place_ne (h : fmt.Labelled label mem) (hb : 0 < fmt.base) {t₀ i₀ m lead : Nat}
    (hw : SameBut label mem mem' t₀ i₀) (h₀ : label t₀ = some (m, lead)) {k n table : Nat}
    (ht : label table = some (fmt.place n key)) (hkn : k ≤ n)
    (hne : key / fmt.base ^ m ≠ lead * fmt.base + i₀) :
    fmt.meets mem' k n table key = fmt.meets mem k n table key := by
  refine meets_congr hkn fun l t _ hm => ?_
  have hlab := h.meets_place hb ht hm
  refine hw t _ (by simp [hlab]) ?_
  rintro ⟨rfl, hi⟩
  rw [hlab, place] at h₀
  obtain ⟨rfl, rfl⟩ := Prod.mk.inj (Option.some.inj h₀)
  rw [← hi, lead_mul_add_index] at hne
  exact hne rfl

/-- A new table from which no link leads on, linked at an entry that a lookup ended at, is met
by the keys of its place; all other tables are met as before. -/
theorem meets_link (h : fmt.Labelled label mem) (hb : 0 < fmt.base) {m n table t c : Nat}
    (htop : label table = some (fmt.place n key)) (hmn : m + 1 ≤ n)
    (ht : fmt.meets mem (m + 1) n table key = some t)
    (hend : fmt.stops (m + 1) (mem t (fmt.index (m + 1) key)) = true)
    (hw : SameBut label mem mem' t (fmt.index (m + 1) key))
    (hs : fmt.stops (m + 1) (mem' t (fmt.index (m + 1) key)) = false)
    (hc : fmt.child (mem' t (fmt.index (m + 1) key)) = c)
    (hwords : m = 0 ∨ ∀ j, fmt.stops m (mem' c j) = true) {key' k : Nat}
    (htop' : label table = some (fmt.place n key')) (hk : k ≤ n) :
    fmt.meets mem' k n table key' =
      if k = m ∧ fmt.place m key' = fmt.place m key then some c
      else fmt.meets mem k n table key' := by
  have hlab := h.meets_place hb htop ht
  by_cases hp : key' / fmt.base ^ (m + 1) = key / fmt.base ^ (m + 1)
  · have hplace : fmt.place m key' = fmt.place m key := congrArg (Prod.mk m) hp
    have hindex : fmt.index (m + 1) key' = fmt.index (m + 1) key := by rw [index, index, hp]
    have hlead : key' / fmt.base ^ (m + 1 + 1) = key / fmt.base ^ (m + 1 + 1) := by
      rw [pow_succ, ← Nat.div_div_eq_div_mul, ← Nat.div_div_eq_div_mul, hp]
    have hmet : fmt.meets mem (m + 1) n table key' = some t :=
      (meets_of_lead hmn hlead).trans ht
    have hmet' : fmt.meets mem' (m + 1) n table key' = some t :=
      (meets_of_level_le h hb hw hlab htop' le_rfl hmn).trans hmet
    have hlink : fmt.meets mem' m n table key' = some c := by
      rw [meets_below hmet', hindex, hs, if_neg Bool.false_ne_true, hc]
    rcases Nat.lt_trichotomy k m with hlt | rfl | hgt
    · -- The new table is empty, and there was none before.
      rw [if_neg (by omega), meets_eq_none_of_stops hmet hmn (by rw [hindex]; exact hend) hlt.le]
      obtain ⟨l, rfl⟩ := Nat.exists_eq_succ_of_ne_zero (by omega : m ≠ 0)
      exact meets_eq_none_of_stops hlink (by omega) (hwords.resolve_left (by omega) _) (by omega)
    · rw [if_pos ⟨rfl, hplace⟩, hlink]
    · rw [if_neg (by omega)]
      exact meets_of_level_le h hb hw hlab htop' hgt hk
  · have hplace : ¬(k = m ∧ fmt.place m key' = fmt.place m key) := fun hc =>
      hp (congrArg Prod.snd hc.2)
    rw [if_neg hplace]
    refine meets_of_place_ne h hb hw hlab htop' hk ?_
    rw [lead_mul_add_index]
    exact hp

/-- A write that changes no lookup from the table written changes none from above. -/
theorem lookup_of_local (h : fmt.Labelled label mem) (hb : 0 < fmt.base) {t₀ i₀ m : Nat}
    (hw : SameBut label mem mem' t₀ i₀) (h₀ : label t₀ = some (fmt.place m key))
    (hlocal : fmt.lookup mem' m t₀ key = fmt.lookup mem m t₀ key) {n table : Nat} (hn : m ≤ n)
    (ht : label table = some (fmt.place n key)) :
    fmt.lookup mem' n table key = fmt.lookup mem n table key := by
  have hlevel {k t : Nat} (hk : k ≠ m) (hlab : label t = some (fmt.place k key)) : t ≠ t₀ := by
    rintro rfl
    rw [hlab] at h₀
    exact hk (congrArg Prod.fst (Option.some.inj h₀))
  induction n generalizing table with
  | zero =>
    obtain rfl : m = 0 := by omega
    by_cases he : table = t₀
    · exact he ▸ hlocal
    · rw [lookup, lookup, hw table _ (by simp [ht]) fun hc => he hc.1]
  | succ n ih =>
    by_cases he : table = t₀
    · subst he
      rw [ht] at h₀
      obtain rfl : n + 1 = m := congrArg Prod.fst (Option.some.inj h₀)
      exact hlocal
    · have hsame := hw table (fmt.index (n + 1) key) (by simp [ht]) fun hc => he hc.1
      rw [lookup, lookup, hsame]
      split
      · rfl
      · next hs =>
        have hchild := h.child_place hb ht (by simpa using hs)
        rcases Nat.eq_or_lt_of_le hn with rfl | hlt
        · rw [lookup_congr h hb hchild fun k hk t hlab =>
            hw t _ (by simp [hlab]) fun hc => hlevel (by omega) hlab hc.1]
        · rw [ih (by omega) hchild]

/-- A write below which a lookup does not pass changes nothing for it. -/
theorem lookup_of_not_meets (h : fmt.Labelled label mem) (hb : 0 < fmt.base) {t₀ i₀ m lead : Nat}
    (hw : SameBut label mem mem' t₀ i₀) (h₀ : label t₀ = some (m, lead)) {n table : Nat}
    (hn : m ≤ n) (ht : label table = some (fmt.place n key))
    (hmeets : fmt.meets mem m n table key ≠ some t₀) :
    fmt.lookup mem' n table key = fmt.lookup mem n table key := by
  have hlevel {k t : Nat} (hk : k ≠ m) (hlab : label t = some (fmt.place k key)) : t ≠ t₀ := by
    rintro rfl
    rw [hlab] at h₀
    exact hk (congrArg Prod.fst (Option.some.inj h₀))
  induction n generalizing table with
  | zero =>
    obtain rfl : m = 0 := by omega
    rw [lookup, lookup, hw table _ (by simp [ht]) fun hc => hmeets (by simp [meets, hc.1])]
  | succ n ih =>
    have hne : table ≠ t₀ := by
      rintro rfl
      rw [ht] at h₀
      obtain rfl : n + 1 = m := congrArg Prod.fst (Option.some.inj h₀)
      exact hmeets (by simp [meets])
    have hsame := hw table (fmt.index (n + 1) key) (by simp [ht]) fun hc => hne hc.1
    rw [lookup, lookup, hsame]
    split
    · rfl
    · next hs =>
      have hs' : fmt.stops (n + 1) (mem table (fmt.index (n + 1) key)) = false := by simpa using hs
      have hchild := h.child_place hb ht hs'
      rcases Nat.eq_or_lt_of_le hn with rfl | hlt
      · rw [lookup_congr h hb hchild fun k hk t hlab =>
          hw t _ (by simp [hlab]) fun hc => hlevel (by omega) hlab hc.1]
      · rw [ih (by omega) hchild]
        rw [meets, if_neg (by omega)] at hmeets
        simpa [hs'] using hmeets

end Format

end RadixTree
