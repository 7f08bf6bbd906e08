import Mathlib.Data.List.Basic

/-!
# Rings with a cycle bit

A producer writes items into the slots of a ring, one after the other and around again.
Which slots hold a new item is told by a bit of the item alone: it is the cycle state of the
pass the item was written in. The consumer knows its own pass, and so can tell a new item
from one of the pass before.
-/

namespace CycleRing

/-- The cycle state of the pass that item `k` is written in. -/
def cycle (size k : Nat) : Bool := k / size % 2 == 0

theorem cycle_of_lt {size k : Nat} (h : k < size) : cycle size k = true := by
  rw [cycle, Nat.div_eq_of_lt h]
  rfl

/-- The next pass has the other cycle state. -/
theorem cycle_add_size {size : Nat} (hsize : 0 < size) (k : Nat) :
    cycle size (k + size) = !cycle size k := by
  rw [cycle, cycle, Nat.add_div_right k hsize]
  rcases Nat.mod_two_eq_zero_or_one (k / size) with h | h
  · rw [h, show (k / size).succ % 2 = 1 by omega]
    rfl
  · rw [h, show (k / size).succ % 2 = 0 by omega]
    rfl

variable {α : Type*}

/-- The slots of a ring after the items of `written` went into it: the items of the last
`size` writes are there, each with the cycle state of its pass, and a slot that was never
written has its bit clear. -/
structure Holds (bit : α → Bool) (size : Nat) (written : List α) (ring : Nat → α) : Prop where
  stored : ∀ k (hk : k < written.length), written.length ≤ k + size → ring (k % size) = written[k]
  bits : ∀ k (hk : k < written.length), bit written[k] = cycle size k
  fresh : ∀ k, written.length ≤ k → k < size → bit (ring k) = false

namespace Holds

variable {bit : α → Bool} {size : Nat} {written : List α} {ring : Nat → α}

theorem empty (h : ∀ k < size, bit (ring k) = false) : Holds bit size [] ring :=
  ⟨nofun, nofun, fun k _ hk => h k hk⟩

/-- The next item goes into the slot of the oldest one. -/
theorem write (h : Holds bit size written ring) {x : α}
    (hx : bit x = cycle size written.length) :
    Holds bit size (written ++ [x]) (Function.update ring (written.length % size) x) := by
  refine ⟨fun k hk hlast => ?_, fun k hk => ?_, fun k hk hlt => ?_⟩
  · rw [List.length_append, List.length_singleton] at hk hlast
    by_cases hnew : k = written.length
    · subst hnew
      simp
    · have hold : k < written.length := by omega
      have hslot : k % size ≠ written.length % size := by
        intro heq
        have hdvd : size ∣ written.length - k := 
          Nat.dvd_of_mod_eq_zero (Nat.sub_mod_eq_zero_of_mod_eq heq.symm)
        have hle := Nat.le_of_dvd (by omega) hdvd
        omega
      rw [Function.update_of_ne hslot, h.stored k hold (by omega)]
      simp [List.getElem_append_left hold]
  · rw [List.length_append, List.length_singleton] at hk
    by_cases hnew : k = written.length
    · subst hnew
      simpa using hx
    · have hold : k < written.length := by omega
      simpa [List.getElem_append_left hold] using h.bits k hold
  · rw [List.length_append, List.length_singleton] at hk
    have hslot : k ≠ written.length % size := by
      rw [Nat.mod_eq_of_lt (by omega)]
      omega
    rw [Function.update_of_ne hslot]
    exact h.fresh k (by omega) hlt

/-- A consumer less than a pass behind finds the next item in its slot. -/
theorem get (h : Holds bit size written ring) {c : Nat} (hc : c < written.length)
    (hlast : written.length ≤ c + size) :
    ring (c % size) = written[c] ∧ bit (ring (c % size)) = cycle size c := by
  have hstored := h.stored c hc hlast
  exact ⟨hstored, by rw [hstored]; exact h.bits c hc⟩

/-- A consumer that has taken all items finds one of the pass before, or an unused slot. -/
theorem stale (h : Holds bit size written ring) (hsize : 0 < size) :
    bit (ring (written.length % size)) ≠ cycle size written.length := by
  by_cases hfirst : written.length < size
  · rw [Nat.mod_eq_of_lt hfirst, h.fresh _ (Nat.le_refl _) hfirst, cycle_of_lt hfirst]
    decide
  · obtain ⟨k, hk⟩ := Nat.exists_eq_add_of_le' (Nat.le_of_not_lt hfirst)
    have hlt : k < written.length := by omega
    have hold := h.get hlt (by omega)
    rw [hk, Nat.add_mod_right, hold.2, cycle_add_size hsize]
    simp

end Holds

end CycleRing
