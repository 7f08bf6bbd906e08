import Mathlib.Data.List.Basic
import Mathlib.Logic.Function.Basic

/-!
# Linked segments

A link function sends each node to the node after it. `Segment link start l stop`
says that following the links from `start` visits exactly the list `l` and then
reaches `stop`. A doubly linked list is a pair of segments, one for each direction,
over a list and its reverse; unlinking a node and appending one at the end act on
both directions by the same two rules.
-/

namespace Sylphia.LinkedList

variable {α : Type*}

/-- Following `link` from `start` visits `l` and arrives at `stop`. -/
def Segment (link : α → Option α) : Option α → List α → Option α → Prop
  | start, [], stop => start = stop
  | start, a :: l, stop => start = some a ∧ Segment link (link a) l stop

/-- Segments compose at the node between them. -/
theorem segment_append {link : α → Option α} {start stop : Option α} {l l' : List α} :
    Segment link start (l ++ l') stop ↔
      ∃ mid, Segment link start l mid ∧ Segment link mid l' stop := by
  induction l generalizing start with
  | nil => simp [Segment]
  | cons a l ih =>
    simp only [List.cons_append, Segment, ih]
    constructor
    · rintro ⟨ha, mid, hl, hl'⟩
      exact ⟨mid, ⟨ha, hl⟩, hl'⟩
    · rintro ⟨mid, ⟨ha, hl⟩, hl'⟩
      exact ⟨ha, mid, hl, hl'⟩

/-- A segment depends only on the links of the nodes it visits. -/
theorem Segment.congr {link link' : α → Option α} {start stop : Option α} {l : List α}
    (h : Segment link start l stop) (he : ∀ a ∈ l, link' a = link a) :
    Segment link' start l stop := by
  induction l generalizing start with
  | nil => exact h
  | cons a l ih =>
    refine ⟨h.1, ?_⟩
    rw [he a (List.mem_cons_self ..)]
    exact ih h.2 fun b hb => he b (List.mem_cons_of_mem _ hb)

/-- The links lead along one list. -/
theorem Segment.unique {link : α → Option α} {start : Option α} {l l' : List α}
    (h : Segment link start l none) (h' : Segment link start l' none) : l = l' := by
  induction l generalizing start l' with
  | nil =>
    cases l' with
    | nil => rfl
    | cons b l' => cases h.symm.trans h'.1
  | cons a l ih =>
    cases l' with
    | nil => cases h'.symm.trans h.1
    | cons b l' =>
      obtain rfl := Option.some.inj (h.1.symm.trans h'.1)
      rw [ih h.2 h'.2]

/-- The first node visited is the start. -/
theorem Segment.start_eq {link : α → Option α} {start : Option α} {l : List α}
    (h : Segment link start l none) : start = l.head? := by
  cases l with
  | nil => exact h
  | cons a l => exact h.1

/-- Inside a segment the link of a node is the next node visited. -/
theorem Segment.link_eq {link : α → Option α} {start : Option α} {l l' : List α} {a : α}
    (h : Segment link start (l ++ a :: l') none) : link a = l'.head? := by
  obtain ⟨_, _, hr⟩ := segment_append.mp h
  exact Segment.start_eq hr.2

variable [DecidableEq α]

/-- Redirecting the last node of a segment moves its end. -/
theorem Segment.redirect {link : α → Option α} {start stop stop' : Option α} {l : List α} {b : α}
    (h : Segment link start (l ++ [b]) stop) (hb : b ∉ l) :
    Segment (Function.update link b stop') start (l ++ [b]) stop' := by
  obtain ⟨mid, hl, hmid, _⟩ := segment_append.mp h
  refine segment_append.mpr ⟨mid, hl.congr fun a ha => ?_, hmid, ?_⟩
  · exact Function.update_of_ne (ne_of_mem_of_not_mem ha hb) _ _
  · simp [Segment]

/-- The links after taking `a` out: its predecessor skips it and it links nowhere. -/
def unlink (link : α → Option α) (pred : Option α) (a : α) : α → Option α :=
  Function.update (pred.elim link fun b => Function.update link b (link a)) a none

@[simp] theorem unlink_self (link : α → Option α) (pred : Option α) (a : α) :
    unlink link pred a a = none := by
  simp [unlink]

/-- Unlinking touches only the node and its predecessor. -/
theorem unlink_of_ne {link : α → Option α} {pred : Option α} {a b : α} (hb : b ≠ a)
    (hp : pred ≠ some b) : unlink link pred a b = link b := by
  rw [unlink, Function.update_of_ne hb]
  cases pred with
  | none => rfl
  | some c => exact Function.update_of_ne (fun he => hp (congrArg some he.symm)) _ _

/-- A node without links is unlinked already. -/
theorem unlink_of_none {link : α → Option α} {a : α} (h : link a = none) :
    unlink link none a = link := by
  exact (congrArg (Function.update link a) h.symm).trans (Function.update_eq_self a link)

/-- Taking a node out of a duplicate-free list, seen from one direction. -/
theorem Segment.unlink {link : α → Option α} {start : Option α} {l l' : List α} {a : α}
    (h : Segment link start (l ++ a :: l') none) (hn : (l ++ a :: l').Nodup) :
    Segment (LinkedList.unlink link l.getLast? a)
      (if start = some a then link a else start) (l ++ l') none := by
  obtain ⟨mid, hl, hmid, hl'⟩ := segment_append.mp h
  subst hmid
  obtain ⟨_, hnr, hdis⟩ := List.nodup_append.mp hn
  have ha : a ∉ l' := (List.nodup_cons.mp hnr).1
  rcases List.eq_nil_or_concat l with rfl | ⟨l₀, b, rfl⟩
  · -- The node was first, so the start moves on.
    obtain rfl : start = some a := hl
    rw [if_pos rfl]
    exact hl'.congr fun c hc => Function.update_of_ne (ne_of_mem_of_not_mem hc ha) _ _
  · simp only [List.concat_eq_append] at *
    have hb : b ∉ l₀ ∧ b ≠ a ∧ b ∉ l' := by
      have hnl := (List.nodup_append.mp hn).1
      refine ⟨fun hc => (List.nodup_append.mp hnl).2.2 b hc b (by simp) rfl, ?_, ?_⟩
      · exact hdis b (by simp) a (by simp)
      · exact fun hc => hdis b (by simp) b (List.mem_cons_of_mem _ hc) rfl
    have hal : a ∉ l₀ ++ [b] := fun hc => hdis a hc a (by simp) rfl
    have hstart : start ≠ some a := by
      intro he
      rw [he] at hl
      cases l₀ with
      | nil => exact hb.2.1 (Option.some.inj hl.1).symm
      | cons c l₀ => exact hal (by simp [Option.some.inj hl.1])
    rw [if_neg hstart]
    refine segment_append.mpr ⟨link a, ?_, ?_⟩
    · have hr : Segment (Function.update link b (link a)) start (l₀ ++ [b]) (link a) :=
        hl.redirect hb.1
      refine hr.congr fun c hc => ?_
      simp only [LinkedList.unlink, List.getLast?_append, List.getLast?_singleton, Option.some_or,
        Option.elim_some]
      exact Function.update_of_ne (ne_of_mem_of_not_mem hc hal) _ _
    · refine hl'.congr fun c hc => ?_
      simp only [LinkedList.unlink, List.getLast?_append, List.getLast?_singleton, Option.some_or,
        Option.elim_some]
      rw [Function.update_of_ne (ne_of_mem_of_not_mem hc ha),
        Function.update_of_ne (ne_of_mem_of_not_mem hc hb.2.2)]

/-- Appending a node `a` after the last one, seen from the forward direction. -/
theorem Segment.append_last {link : α → Option α} {start : Option α} {l : List α} {a : α}
    (h : Segment link start l none) (hn : l.Nodup) (ha : a ∉ l) (hlink : link a = none) :
    Segment (l.getLast?.elim link fun b => Function.update link b (some a))
      (if l = [] then some a else start) (l ++ [a]) none := by
  rcases List.eq_nil_or_concat l with rfl | ⟨l₀, b, rfl⟩
  · exact ⟨rfl, hlink⟩
  · simp only [List.concat_eq_append] at *
    have hb : b ∉ l₀ := fun hc => (List.nodup_append.mp hn).2.2 b hc b (by simp) rfl
    have hab : a ≠ b := fun he => ha (by simp [he])
    simp only [List.getLast?_append, List.getLast?_singleton, Option.some_or, Option.elim_some,
      List.append_eq_nil_iff, List.cons_ne_nil, and_false, if_false]
    refine segment_append.mpr ⟨some a, h.redirect hb, rfl, ?_⟩
    exact (Function.update_of_ne hab _ _).trans hlink

/-- Appending a node `a` after the last one, seen from the backward direction. -/
theorem Segment.prepend {link : α → Option α} {start : Option α} {l : List α} {a : α}
    (h : Segment link start l none) (ha : a ∉ l) :
    Segment (Function.update link a start) (some a) (a :: l) none := by
  refine ⟨rfl, ?_⟩
  rw [Function.update_self]
  exact h.congr fun b hb => Function.update_of_ne (ne_of_mem_of_not_mem hb ha) _ _

end Sylphia.LinkedList
