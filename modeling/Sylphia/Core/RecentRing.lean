import Sylphia.Core.BoundedFifo

/-!
# Rings that keep the most recent items

The `k`-th item of a sequence goes into the cell `k mod size`, over the item that was there
before. The last `size` items are then all in the ring, and are read from the oldest on by
starting at the cell of the next write.
-/

namespace RecentRing

variable {α β : Type*}

/-- The cells of the last `size` items of a sequence hold them, as `view` reads a cell. -/
def Holds (view : β → α) (size : Nat) (items : List α) (ring : Nat → β) : Prop :=
  ∀ k (hk : k < items.length), items.length ≤ k + size → view (ring (k % size)) = items[k]

variable {view : β → α} {size : Nat} {items : List α} {ring ring' : Nat → β}

theorem Holds.empty : Holds view size [] ring := nofun

/-- Cells less than a turn apart are different. -/
theorem mod_ne_of_lt {k n : Nat} (hlt : k < n) (hrecent : n < k + size) : k % size ≠ n % size := by
  have hne := @BoundedFifo.RingBuffer.mod_ne_mod size k 0 (n - k) (by omega) (by omega)
  rwa [Nat.add_zero, Nat.add_sub_cancel' hlt.le] at hne

/-- The next item goes over the oldest one. -/
theorem Holds.write (h : Holds view size items ring) (y : β) :
    Holds view size (items ++ [view y]) (Function.update ring (items.length % size) y) := by
  intro k hk hrecent
  rw [List.length_append, List.length_singleton] at hk hrecent
  by_cases hnew : k = items.length
  · subst hnew
    simp
  · have hold : k < items.length := by omega
    rw [Function.update_of_ne (mod_ne_of_lt hold (by omega)), h k hold (by omega),
      List.getElem_append_left hold]

/-- What the view does not show may change. -/
theorem Holds.congr (h : Holds view size items ring) (hview : ∀ j, view (ring' j) = view (ring j)) :
    Holds view size items ring' := by
  intro k hk hrecent
  rw [hview, h k hk hrecent]

/-- The number of the oldest item in the ring after `n` items. -/
def oldest (size n : Nat) : Nat := n - min n size

/-- A reader starts at the first cell while the ring is filled, and later at the cell of the
next write; either way its `i`-th cell is that of the `i`-th item from the oldest on. -/
theorem cell_eq (size n i : Nat) :
    ((if min n size < size then 0 else n % size) + i) % size = (oldest size n + i) % size := by
  rw [oldest]
  split
  · next hfew =>
    have hmin : min n size = n := by omega
    rw [hmin, Nat.sub_self]
  · next hmany =>
    have hmin : min n size = size := by omega
    rw [hmin, Nat.mod_add_mod]
    obtain ⟨m, hm⟩ := Nat.exists_eq_add_of_le' (show size ≤ n by omega)
    rw [hm, Nat.add_sub_cancel, Nat.add_right_comm, Nat.add_mod_right]

/-- Read from the oldest item on, the ring gives the last items of the sequence. -/
theorem Holds.map_window (h : Holds view size items ring) :
    ((List.range (min items.length size)).map fun i =>
        view (ring ((oldest size items.length + i) % size))) =
      items.drop (oldest size items.length) := by
  apply List.ext_getElem
  · rw [List.length_map, List.length_range, List.length_drop, oldest]
    omega
  · intro i hi _
    rw [List.length_map, List.length_range] at hi
    rw [List.getElem_map, List.getElem_range, List.getElem_drop]
    apply h
    rw [oldest]
    omega

end RecentRing
