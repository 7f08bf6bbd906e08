import Mathlib.Data.List.Nodup
import Sylphia.Core.LinkedList
import Sylphia.Task.Manager

/-!
# The ready queue in every reachable state

Membership in the ready queue is never stored: the source infers it from the links
and the head pointer. The invariant below makes that test exact, so that removing a
task that is not queued changes nothing and adding one that is queued is refused, in
any order of operations.
-/

namespace Sylphia

open LinkedList

/-- The links of the live tasks thread the list `l` in both directions, and only it. -/
structure ReadyQueue (tm : TaskManager) (live l : List TaskPtr) : Prop where
  nodup : l.Nodup
  forward : Segment tm.next tm.readyQueueHead l none
  backward : Segment tm.prev tm.readyQueueTail l.reverse none
  outside : ∀ p ∈ live, p ∉ l → tm.next p = none ∧ tm.prev p = none
  queued : ∀ p ∈ l, p ∈ live ∧ tm.state p = .ready

namespace TaskManager

section Remove

variable (tm : TaskManager) (p : TaskPtr)

private theorem next_bridgePrev : (tm.bridgePrev p).next =
    (tm.prev p).elim tm.next fun b => Function.update tm.next b (tm.next p) := by
  unfold bridgePrev
  cases tm.prev p <;> simp

private theorem prev_bridgePrev : (tm.bridgePrev p).prev = tm.prev := by
  unfold bridgePrev
  cases tm.prev p <;> simp

private theorem next_bridgeNext : (tm.bridgeNext p).next = tm.next := by
  unfold bridgeNext
  cases tm.next p <;> simp

private theorem prev_bridgeNext : (tm.bridgeNext p).prev =
    (tm.next p).elim tm.prev fun b => Function.update tm.prev b (tm.prev p) := by
  unfold bridgeNext
  cases tm.next p <;> simp

@[simp] theorem head_remove : (tm.removeFromReadyQueue p).readyQueueHead =
    if some p = tm.readyQueueHead then tm.next p else tm.readyQueueHead := by
  unfold removeFromReadyQueue bridgeNext bridgePrev
  split <;> split <;> rfl

@[simp] theorem tail_remove : (tm.removeFromReadyQueue p).readyQueueTail =
    if some p = tm.readyQueueTail then tm.prev p else tm.readyQueueTail := by
  unfold removeFromReadyQueue bridgeNext bridgePrev
  split <;> split <;> rfl

@[simp] theorem currentTask_remove :
    (tm.removeFromReadyQueue p).currentTask = tm.currentTask := by
  unfold removeFromReadyQueue bridgeNext bridgePrev
  split <;> split <;> rfl

@[simp] theorem state_remove : (tm.removeFromReadyQueue p).state = tm.state := by
  unfold removeFromReadyQueue bridgeNext bridgePrev
  split <;> split <;> simp only [state_setPrev, state_setNext] <;> rfl

/-- A removal, seen from the `next` links. -/
theorem next_remove : (tm.removeFromReadyQueue p).next = unlink tm.next (tm.prev p) p := by
  simp only [removeFromReadyQueue, next_setPrev, next_setNext, next_bridgeNext, next_bridgePrev]
  rfl

/-- A removal, seen from the `prev` links; no task precedes itself. -/
theorem prev_remove (hp : tm.prev p ≠ some p) :
    (tm.removeFromReadyQueue p).prev = unlink tm.prev (tm.next p) p := by
  have hnext : ((tm.detachEnds p).bridgePrev p).next p = tm.next p := by
    rw [next_bridgePrev]
    change (tm.prev p).elim tm.next (fun b => Function.update tm.next b (tm.next p)) p = tm.next p
    cases hb : tm.prev p with
    | none => rfl
    | some b =>
      have hne : p ≠ b := fun he => hp (he ▸ hb)
      exact Function.update_of_ne hne _ _
  simp only [removeFromReadyQueue, prev_setPrev, prev_setNext, prev_bridgeNext, prev_bridgePrev,
    hnext]
  rfl

end Remove

/-- Everything `AddToReadyQueue` changes when its test finds the task not queued. -/
theorem add_fields (tm : TaskManager) {p : TaskPtr}
    (hg : ¬(tm.next p ≠ none ∨ tm.prev p ≠ none ∨ some p = tm.readyQueueHead)) :
    (tm.addToReadyQueue p).next =
        tm.readyQueueTail.elim tm.next (fun b => Function.update tm.next b (some p)) ∧
      (tm.addToReadyQueue p).prev = Function.update tm.prev p tm.readyQueueTail ∧
      (tm.addToReadyQueue p).state = Function.update tm.state p .ready ∧
      (tm.addToReadyQueue p).readyQueueHead =
        (if tm.readyQueueTail = none then some p else tm.readyQueueHead) ∧
      (tm.addToReadyQueue p).readyQueueTail = some p ∧
      (tm.addToReadyQueue p).currentTask = tm.currentTask := by
  have hn : Function.update tm.next p none = tm.next := by
    have hnone : tm.next p = none := by
      by_contra hc
      exact hg (Or.inl hc)
    rw [← hnone, Function.update_eq_self]
  have hnext : ((((tm.setState p .ready).setNext p none).setPrev p tm.readyQueueTail)).next =
      tm.next := by simp [hn]
  have hprev : ((((tm.setState p .ready).setNext p none).setPrev p tm.readyQueueTail)).prev =
      Function.update tm.prev p tm.readyQueueTail := by simp
  have hstate : ((((tm.setState p .ready).setNext p none).setPrev p tm.readyQueueTail)).state =
      Function.update tm.state p .ready := by simp
  simp only [addToReadyQueue, if_neg hg, readyQueueTail_setPrev, readyQueueTail_setNext,
    readyQueueTail_setState]
  cases ht : tm.readyQueueTail with
  | none =>
    rw [ht] at hnext hprev hstate
    exact ⟨hnext, hprev, hstate, rfl, trivial, rfl⟩
  | some b =>
    rw [ht] at hnext hprev hstate
    refine ⟨?_, ?_, ?_, by simp, trivial, rfl⟩
    · exact (next_setNext _ b _).trans (by rw [hnext]; rfl)
    · exact (prev_setNext _ b _).trans hprev
    · exact (state_setNext _ b _).trans hstate

end TaskManager

namespace ReadyQueue

variable {tm : TaskManager} {live l : List TaskPtr} {p : TaskPtr}

/-- The links of a queued task are its neighbours. -/
private theorem links_of_split {a b : List TaskPtr} (h : ReadyQueue tm live (a ++ p :: b)) :
    tm.next p = b.head? ∧ tm.prev p = a.getLast? := by
  have hb := h.backward
  rw [List.reverse_append, List.reverse_cons, List.append_assoc, List.singleton_append] at hb
  rw [h.forward.link_eq, Segment.link_eq hb, List.head?_reverse]
  exact ⟨rfl, rfl⟩

/-- The source's membership test is exact: a live task is queued exactly when it has a
link or is the head. -/
theorem mem_iff_linked (h : ReadyQueue tm live l) (hp : p ∈ live) :
    p ∈ l ↔ tm.next p ≠ none ∨ tm.prev p ≠ none ∨ some p = tm.readyQueueHead := by
  constructor
  · intro hl
    obtain ⟨a, b, rfl⟩ := List.append_of_mem hl
    obtain ⟨hn, hv⟩ := h.links_of_split
    rw [hn, hv, h.forward.start_eq]
    cases a with
    | nil => exact Or.inr (Or.inr rfl)
    | cons c a => exact Or.inr (Or.inl (by simp))
  · intro hlink
    by_contra hl
    obtain ⟨hn, hv⟩ := h.outside p hp hl
    rcases hlink with hc | hc | hc
    · exact hc hn
    · exact hc hv
    · rw [h.forward.start_eq] at hc
      exact hl (List.mem_of_head? hc.symm)

/-- `RemoveFromReadyQueue` takes the task out of the queue if it is there. -/
theorem remove (h : ReadyQueue tm live l) (hp : p ∈ live) :
    ReadyQueue (tm.removeFromReadyQueue p) live (l.erase p) := by
  by_cases hl : p ∈ l
  · obtain ⟨a, b, rfl⟩ := List.append_of_mem hl
    obtain ⟨hn, hv⟩ := h.links_of_split
    have hnd := h.nodup
    have hpa : p ∉ a := fun hc => (List.nodup_append.mp hnd).2.2 p hc p (by simp) rfl
    have hpb : p ∉ b := (List.nodup_cons.mp (List.nodup_append.mp hnd).2.1).1
    have hself : tm.prev p ≠ some p := by
      rw [hv]
      exact fun hc => hpa (List.mem_of_getLast? hc)
    have he : (a ++ p :: b).erase p = a ++ b := by
      rw [List.erase_append_right _ hpa, List.erase_cons_head]
    rw [he]
    have hsub : ∀ q ∈ a ++ b, q ∈ a ++ p :: b := fun q hq => by
      rcases List.mem_append.mp hq with hq | hq
      · exact List.mem_append_left _ hq
      · exact List.mem_append_right _ (List.mem_cons_of_mem _ hq)
    refine ⟨he ▸ hnd.erase p, ?_, ?_, fun q hq hql => ?_, fun q hq => ?_⟩
    · have hf := h.forward.unlink hnd
      rw [tm.next_remove, tm.head_remove, hv]
      simpa only [eq_comm] using hf
    · have hb := h.backward
      rw [List.reverse_append, List.reverse_cons, List.append_assoc, List.singleton_append] at hb
      have hndr := List.nodup_reverse.mpr hnd
      rw [List.reverse_append, List.reverse_cons, List.append_assoc, List.singleton_append] at hndr
      have hu := Segment.unlink hb hndr
      rw [tm.prev_remove p hself, tm.tail_remove, hn, List.reverse_append]
      rw [List.getLast?_reverse] at hu
      simpa only [eq_comm] using hu
    · rw [tm.next_remove, tm.prev_remove p hself, hn, hv]
      by_cases hqp : q = p
      · subst hqp
        simp
      · have hql' : q ∉ a ++ p :: b := by
          intro hc
          simp only [List.mem_append, List.mem_cons] at hc hql
          tauto
        have ho := h.outside q hq hql'
        rw [unlink_of_ne hqp, unlink_of_ne hqp]
        · exact ho
        · exact fun hc => hql' (List.mem_append_right _ (List.mem_cons_of_mem _
            (List.mem_of_head? hc)))
        · exact fun hc => hql' (List.mem_append_left _ (List.mem_of_getLast? hc))
    · rw [tm.state_remove]
      exact h.queued q (hsub q hq)
  · obtain ⟨hn, hv⟩ := h.outside p hp hl
    have hne : some p ≠ tm.readyQueueHead ∧ some p ≠ tm.readyQueueTail := by
      rw [h.forward.start_eq, h.backward.start_eq, List.head?_reverse]
      exact ⟨fun hc => hl (List.mem_of_head? hc.symm), fun hc => hl (List.mem_of_getLast? hc.symm)⟩
    rw [List.erase_of_not_mem hl]
    have hnext : (tm.removeFromReadyQueue p).next = tm.next := by
      rw [tm.next_remove, hv, unlink_of_none hn]
    have hprev : (tm.removeFromReadyQueue p).prev = tm.prev := by
      rw [tm.prev_remove p (by simp [hv]), hn, unlink_of_none hv]
    refine ⟨h.nodup, ?_, ?_, ?_, ?_⟩
    · rw [hnext, tm.head_remove, if_neg hne.1]
      exact h.forward
    · rw [hprev, tm.tail_remove, if_neg hne.2]
      exact h.backward
    · rw [hnext, hprev]
      exact h.outside
    · rw [tm.state_remove]
      exact h.queued

/-- Changing the state of a task that is not queued leaves the queue alone. -/
theorem setState (h : ReadyQueue tm live l) (hp : p ∉ l) (v : TaskState) :
    ReadyQueue (tm.setState p v) live l where
  nodup := h.nodup
  forward := by simpa using h.forward
  backward := by simpa using h.backward
  outside := by simpa using h.outside
  queued := by
    intro q hq
    rw [tm.state_setState, Function.update_of_ne (ne_of_mem_of_not_mem hq hp)]
    exact h.queued q hq

/-- `AddToReadyQueue` puts a live task that is not queued at the end. -/
theorem add_of_not_mem (h : ReadyQueue tm live l) (hp : p ∈ live) (hl : p ∉ l) :
    ReadyQueue (tm.addToReadyQueue p) live (l ++ [p]) := by
  have hguard := mt (h.mem_iff_linked hp).mpr hl
  obtain ⟨hn, hv⟩ := h.outside p hp hl
  have htail : tm.readyQueueTail = l.getLast? := by
    rw [h.backward.start_eq, List.head?_reverse]
  have hf := h.forward.append_last h.nodup hl hn
  have hb := h.backward.prepend (a := p) (by simpa using hl)
  obtain ⟨hnext, hprev, hstate, hhead, htl, _⟩ := tm.add_fields hguard
  refine ⟨?_, ?_, ?_, fun q hq hql => ?_, fun q hq => ?_⟩
  · exact List.nodup_append.mpr ⟨h.nodup, by simp, fun a ha b hb => by
      rw [List.mem_singleton.mp hb]
      exact ne_of_mem_of_not_mem ha hl⟩
  · rw [hnext, hhead, htail]
    simpa only [List.getLast?_eq_none_iff] using hf
  · rw [hprev, htl, List.reverse_append, List.reverse_singleton, List.singleton_append]
    exact hb
  · simp only [List.mem_append, List.mem_singleton, not_or] at hql
    obtain ⟨hqn, hqv⟩ := h.outside q hq hql.1
    rw [hnext, hprev, Function.update_of_ne hql.2]
    refine ⟨?_, hqv⟩
    cases ht : tm.readyQueueTail with
    | none => exact hqn
    | some b =>
      have hbl : b ∈ l := List.mem_of_getLast? (htail ▸ ht)
      exact (Function.update_of_ne (ne_of_mem_of_not_mem hbl hql.1).symm _ _).trans hqn
  · rw [hstate]
    rcases List.mem_append.mp hq with hq | hq
    · rw [Function.update_of_ne (ne_of_mem_of_not_mem hq hl)]
      exact h.queued q hq
    · obtain rfl := List.mem_singleton.mp hq
      exact ⟨hp, Function.update_self ..⟩

/-- `AddToReadyQueue` refuses a task that is queued already. -/
theorem add_of_mem (h : ReadyQueue tm live l) (hp : p ∈ live) (hl : p ∈ l) :
    tm.addToReadyQueue p = tm := by
  rw [TaskManager.addToReadyQueue, if_pos ((h.mem_iff_linked hp).mp hl)]

/-- A queued task is live. -/
theorem not_mem_of_not_live (h : ReadyQueue tm live l) (hp : p ∉ live) : p ∉ l :=
  fun hl => hp (h.queued p hl).1

/-- The head is null exactly when the tail is. -/
theorem head_eq_none_iff (h : ReadyQueue tm live l) :
    tm.readyQueueHead = none ↔ tm.readyQueueTail = none := by
  rw [h.forward.start_eq, h.backward.start_eq, List.head?_eq_none_iff, List.head?_eq_none_iff,
    List.reverse_eq_nil_iff]

end ReadyQueue

end Sylphia
