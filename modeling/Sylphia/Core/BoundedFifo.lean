import Mathlib.Data.List.Basic
import Mathlib.Data.List.Infix

/-!
# Bounded queues in a ring of cells

A queue of bounded size is kept in a ring of cells, with the position of the next write, the
position of the next read and a counter. What such a ring stores is compared with a queue
that remembers everything it has accepted and everything it has given back.
-/

namespace BoundedFifo

variable {α : Type*}

/-- A queue, by what it has accepted and what it has given back since it was last emptied. -/
structure Queue (α : Type*) where
  accepted : List α
  returned : List α

namespace Queue

/-- The queue that nothing was written to. -/
def empty : Queue α := ⟨[], []⟩

/-- The number of the items inside. -/
def queued (q : Queue α) : Nat := q.accepted.length - q.returned.length

/-- A write is accepted as far as there is room, and tells how far that was. -/
def write (size : Nat) (q : Queue α) (items : List α) : Queue α × Nat :=
  let n := min items.length (size - q.queued)
  ({ q with accepted := q.accepted ++ items.take n }, n)

/-- A read gives back the oldest items inside, as many as were asked for or all of them. -/
def read (q : Queue α) (len : Nat) : Queue α × List α :=
  let items := (q.accepted.drop q.returned.length).take (min len q.queued)
  ({ q with returned := q.returned ++ items }, items)

/-- What has been given back is the first part of what has been accepted. -/
def Ordered (q : Queue α) : Prop := q.returned <+: q.accepted

theorem ordered_empty : (empty : Queue α).Ordered := List.prefix_rfl

theorem Ordered.write {q : Queue α} (h : q.Ordered) (size : Nat) (items : List α) :
    (q.write size items).1.Ordered :=
  h.trans (List.prefix_append _ _)

theorem Ordered.read {q : Queue α} (h : q.Ordered) (len : Nat) : (q.read len).1.Ordered := by
  obtain ⟨rest, hrest⟩ := h
  have hdrop : q.accepted.drop q.returned.length = rest := by
    rw [← hrest, List.drop_left]
  refine ⟨rest.drop (min len q.queued), ?_⟩
  show (q.returned ++ (q.accepted.drop q.returned.length).take _) ++ _ = q.accepted
  rw [hdrop, List.append_assoc, List.take_append_drop, hrest]

/-- A read gives back as many items as were asked for, or all there are. -/
theorem length_read (q : Queue α) (len : Nat) : (q.read len).2.length = min len q.queued := by
  simp only [read, queued, List.length_take, List.length_drop]
  omega

end Queue

/-- Cells with two positions and a counter. -/
structure RingBuffer (α : Type*) where
  cells : Nat → α
  writePos : Nat
  readPos : Nat
  count : Nat

namespace RingBuffer

variable (size : Nat)

/-- One item goes into the cell of the next write. -/
def push (r : RingBuffer α) (x : α) : RingBuffer α :=
  { r with
    cells := Function.update r.cells r.writePos x
    writePos := (r.writePos + 1) % size
    count := r.count + 1 }

/-- The cell of the next read is left. -/
def pop (r : RingBuffer α) : RingBuffer α :=
  { r with readPos := (r.readPos + 1) % size, count := r.count - 1 }

/-- Items are written one by one until the ring is full; the result has their number. -/
def write (r : RingBuffer α) : List α → RingBuffer α × Nat
  | [] => (r, 0)
  | x :: items =>
    if r.count ≥ size then (r, 0)
    else
      let (r, n) := write (r.push size x) items
      (r, n + 1)

/-- At most `len` items are read one by one until the ring is empty. -/
def read (r : RingBuffer α) : Nat → RingBuffer α × List α
  | 0 => (r, [])
  | len + 1 =>
    if r.count = 0 then (r, [])
    else
      let (next, items) := read (r.pop size) len
      (next, r.cells r.readPos :: items)

/-- Both positions go back to the first cell. -/
def reset (r : RingBuffer α) : RingBuffer α := { r with writePos := 0, readPos := 0, count := 0 }

/-- The counter is in bounds and says how far the two positions are apart. -/
structure Valid (r : RingBuffer α) : Prop where
  count_le : r.count ≤ size
  readPos_lt : r.readPos < size
  writePos_eq : r.writePos = (r.readPos + r.count) % size

/-- The items between the two positions, oldest first. -/
def contents (r : RingBuffer α) : List α :=
  (List.range r.count).map fun i => r.cells ((r.readPos + i) % size)

@[simp] theorem length_contents (r : RingBuffer α) : (r.contents size).length = r.count := by
  simp [contents]

variable {size} {r : RingBuffer α}

theorem valid_reset (hsize : 0 < size) (r : RingBuffer α) : r.reset.Valid size :=
  ⟨Nat.zero_le _, hsize, by simp [reset]⟩

theorem Valid.push (h : r.Valid size) (hroom : r.count < size) (x : α) :
    (r.push size x).Valid size := by
  refine ⟨hroom, h.readPos_lt, ?_⟩
  show (r.writePos + 1) % size = (r.readPos + (r.count + 1)) % size
  rw [h.writePos_eq, Nat.mod_add_mod, Nat.add_assoc]

theorem Valid.pop (h : r.Valid size) (hsome : r.count ≠ 0) : (r.pop size).Valid size := by
  refine ⟨(Nat.sub_le _ _).trans h.count_le, Nat.mod_lt _ (by have := h.readPos_lt; omega), ?_⟩
  show r.writePos = ((r.readPos + 1) % size + (r.count - 1)) % size
  rw [h.writePos_eq, Nat.mod_add_mod]
  congr 1
  omega

/-- Cells less than a turn apart are different. -/
theorem mod_ne_mod {size p i n : Nat} (hi : i < n) (hn : n < size) :
    (p + i) % size ≠ (p + n) % size := by
  intro heq
  have hdvd : size ∣ p + n - (p + i) :=
    Nat.dvd_of_mod_eq_zero (Nat.sub_mod_eq_zero_of_mod_eq heq.symm)
  have hle := Nat.le_of_dvd (by omega) hdvd
  omega

/-- An item that is pushed is the last one inside. -/
theorem contents_push (h : r.Valid size) (hroom : r.count < size) (x : α) :
    (r.push size x).contents size = r.contents size ++ [x] := by
  simp only [contents, push, List.range_succ, List.map_append, List.map_singleton]
  congr 1
  · apply List.map_congr_left
    intro i hi
    rw [Function.update_of_ne]
    rw [h.writePos_eq]
    exact mod_ne_mod (List.mem_range.mp hi) hroom
  · rw [h.writePos_eq, Function.update_self]

/-- The item in the cell of the next read is the first one inside. -/
theorem contents_pop (h : r.Valid size) (hsome : r.count ≠ 0) :
    r.contents size = r.cells r.readPos :: (r.pop size).contents size := by
  obtain ⟨n, hn⟩ := Nat.exists_eq_succ_of_ne_zero hsome
  simp only [contents, pop, hn, List.range_succ_eq_map, List.map_cons, List.map_map,
    Nat.add_zero, Nat.mod_eq_of_lt h.readPos_lt, Nat.succ_sub_one]
  congr 1
  apply List.map_congr_left
  intro i _
  rw [Nat.mod_add_mod, Function.comp, Nat.succ_eq_add_one, Nat.add_right_comm, Nat.add_assoc]

/-- What a write adds to the ring, and the number it gives back. -/
theorem write_spec (h : r.Valid size) (items : List α) :
    (r.write size items).1.Valid size ∧
      (r.write size items).2 = min items.length (size - r.count) ∧
      (r.write size items).1.contents size =
        r.contents size ++ items.take (min items.length (size - r.count)) := by
  induction items generalizing r with
  | nil => simp [write, h]
  | cons x items ih =>
    by_cases hfull : r.count ≥ size
    · simp [write, hfull, h, Nat.sub_eq_zero_of_le hfull]
    · have hroom : r.count < size := by omega
      obtain ⟨hvalid, hn, hcontents⟩ := ih (h.push hroom x)
      have hmin : min (x :: items).length (size - r.count) =
          min items.length (size - (r.push size x).count) + 1 := by
        simp only [List.length_cons, push]
        omega
      rw [write, if_neg hfull, hmin]
      refine ⟨hvalid, by rw [← hn], ?_⟩
      rw [hcontents, contents_push h hroom, List.take_succ_cons, List.append_assoc,
        List.singleton_append]

/-- What a read gives back, and what it leaves in the ring. -/
theorem read_spec (h : r.Valid size) (len : Nat) :
    (r.read size len).1.Valid size ∧ (r.read size len).2 = (r.contents size).take len ∧
      (r.read size len).1.contents size = (r.contents size).drop len := by
  induction len generalizing r with
  | zero => simp [read, h]
  | succ len ih =>
    by_cases hempty : r.count = 0
    · have hnil : r.contents size = [] := by
        apply List.eq_nil_of_length_eq_zero
        rw [length_contents, hempty]
      simp [read, hempty, h, hnil]
    · obtain ⟨hvalid, hitems, hcontents⟩ := ih (h.pop hempty)
      rw [read, if_neg hempty, contents_pop h hempty, List.take_succ_cons, List.drop_succ_cons]
      exact ⟨hvalid, by rw [← hitems], hcontents⟩

variable (size) in
/-- The ring holds what the queue has accepted and not given back. -/
structure Stores (r : RingBuffer α) (q : Queue α) : Prop where
  valid : r.Valid size
  ordered : q.Ordered
  contents_eq : r.contents size = q.accepted.drop q.returned.length

namespace Stores

variable {q : Queue α}

/-- The counter is the number of the items inside. -/
theorem count_eq (h : r.Stores size q) : r.count = q.queued := by
  rw [← length_contents size r, h.contents_eq, List.length_drop, Queue.queued]

theorem reset (hsize : 0 < size) (r : RingBuffer α) : r.reset.Stores size .empty :=
  ⟨valid_reset hsize r, Queue.ordered_empty, rfl⟩

theorem write (h : r.Stores size q) (items : List α) :
    (r.write size items).1.Stores size (q.write size items).1 ∧
      (r.write size items).2 = (q.write size items).2 := by
  obtain ⟨hvalid, hn, hcontents⟩ := write_spec h.valid items
  refine ⟨⟨hvalid, h.ordered.write size items, ?_⟩, by rw [hn, h.count_eq]; rfl⟩
  rw [hcontents, h.contents_eq, h.count_eq]
  exact (List.drop_append_of_le_length h.ordered.length_le).symm

theorem read (h : r.Stores size q) (len : Nat) :
    (r.read size len).1.Stores size (q.read len).1 ∧
      (r.read size len).2 = (q.read len).2 := by
  obtain ⟨hvalid, hitems, hcontents⟩ := read_spec h.valid len
  have hsame : (q.accepted.drop q.returned.length).take len =
      (q.accepted.drop q.returned.length).take (min len q.queued) := by
    rw [List.take_eq_take_iff, List.length_drop, Queue.queued]
    omega
  refine ⟨⟨hvalid, h.ordered.read len, ?_⟩, by rw [hitems, h.contents_eq, hsame]; rfl⟩
  rw [hcontents, h.contents_eq]
  show _ = q.accepted.drop (q.returned ++ (q.accepted.drop q.returned.length).take _).length
  rw [← hsame, List.length_append, List.length_take, List.length_drop, List.drop_drop]
  rcases Nat.le_total len (q.accepted.length - q.returned.length) with hle | hle
  · rw [Nat.min_eq_left hle]
  · rw [Nat.min_eq_right hle, List.drop_eq_nil_of_le (by omega),
      List.drop_eq_nil_of_le (by omega)]

end Stores

end RingBuffer

end BoundedFifo
