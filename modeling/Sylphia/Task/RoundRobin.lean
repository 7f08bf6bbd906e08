import Mathlib.Data.List.Rotate
import Sylphia.Core.Run
import Sylphia.Task.History

/-!
# Round robin

A call of the scheduler takes the head of the ready queue and puts the task that was running
behind its tail. Called over and over, it turns the tasks around, until each has run once and
the queue is as it was.
-/

namespace Sylphia

open LinkedList Transition

namespace Scheduler

variable {s : Scheduler} {next : TaskPtr}

theorem skipsPreemption_true (tm : TaskManager) : skipsPreemption tm true = false := by
  rw [skipsPreemption]
  split <;> rfl

theorem enabled_schedule (s : Scheduler) (voluntary : Bool) :
    (s.schedule voluntary).1.enabled = s.enabled := by
  rw [schedule]
  split
  · rfl
  · split
    · rfl
    · split
      · rfl
      · split <;> rfl

/-- A voluntary call that switches. -/
theorem schedule_true (he : s.enabled = true) (hnext : s.tasks.readyQueueHead = some next)
    (hne : s.tasks.currentTask ≠ some next) :
    (s.schedule true).1 =
      { s with
        tasks := dispatch (requeueCurrent s.tasks) next
        scheduleCount := s.scheduleCount + 1 } := by
  rw [schedule, he, if_neg (by decide), TaskManager.getNextTask, hnext]
  dsimp only
  rw [if_neg hne, skipsPreemption_true, if_neg Bool.false_ne_true]

end Scheduler

namespace TaskSystem

variable {s : TaskSystem} {c t : TaskPtr} {ts l : List TaskPtr}

/-- The scheduler is enabled, the task `c` runs, and the links lead along the queue `l`. -/
structure Runs (s : TaskSystem) (c : TaskPtr) (l : List TaskPtr) : Prop where
  enabled : s.scheduler.enabled = true
  current : s.scheduler.tasks.currentTask = some c
  running : s.scheduler.tasks.state c = .running
  queue : Segment s.scheduler.tasks.next s.scheduler.tasks.readyQueueHead l none

/-- `Schedule(true)`, `k` times. -/
def schedules (k : Nat) (s : TaskSystem) : TaskSystem := (fun s => s.step (.schedule true))^[k] s

theorem schedules_succ (k : Nat) (s : TaskSystem) :
    s.schedules (k + 1) = (s.schedules k).step (.schedule true) :=
  Function.iterate_succ_apply' _ k s

theorem Reachable.schedules (h : s.Reachable) (k : Nat) : (s.schedules k).Reachable := by
  induction k with
  | zero => exact h
  | succ k ih =>
    rw [schedules_succ]
    exact .step _ ih trivial

/-- One call: the first task of the queue runs, and the one that was running is the last. -/
theorem Runs.schedule (h : s.Reachable) (hr : s.Runs c (t :: ts)) :
    (s.step (.schedule true)).Runs t (ts ++ [c]) := by
  obtain ⟨l, hinv⟩ := h.inv
  obtain rfl := hinv.tasks.queue.forward.unique hr.queue
  have hct : c ≠ t := by
    rintro rfl
    exact hinv.tasks.not_mem_of_running hr.running List.mem_cons_self
  obtain ⟨hrequeue, hstate⟩ := hinv.tasks.requeue_running hr.current hr.running
  have hnone : ∀ q ∈ s.live, (Scheduler.requeueCurrent s.scheduler.tasks).state q ≠ .running := by
    intro q hq hqr
    by_cases hqc : q = c
    · rw [hstate, hqc, Function.update_self] at hqr
      cases hqr
    · rw [hstate, Function.update_of_ne hqc] at hqr
      exact hqc (Option.some.inj ((hinv.tasks.running q hq hqr).symm.trans hr.current))
  have hdispatch := hrequeue.dispatch (p := t) hnone (by simp)
  rw [List.cons_append, List.erase_cons_head] at hdispatch
  have hne : s.scheduler.tasks.currentTask ≠ some t := by
    rw [hr.current]
    exact fun he => hct (Option.some.inj he)
  have hstep : (s.step (.schedule true)).scheduler = _ :=
    Scheduler.schedule_true hr.enabled hr.queue.1 hne
  refine ⟨?_, ?_, ?_, ?_⟩
  · rw [hstep]
    exact hr.enabled
  · rw [hstep]
    rfl
  · rw [hstep]
    exact congrFun (TaskManager.state_setState _ _ _) t |>.trans (Function.update_self ..)
  · rw [hstep]
    exact hdispatch.queue.forward

/-- After `k` calls the tasks have gone round `k` places. -/
theorem Runs.schedules (h : s.Reachable) (hr : s.Runs c (t :: ts)) (k : Nat) :
    ∃ a l, (s.schedules k).Runs a l ∧ a :: l = (c :: t :: ts).rotate k := by
  induction k with
  | zero => exact ⟨c, t :: ts, hr, (List.rotate_zero _).symm⟩
  | succ k ih =>
    obtain ⟨a, l, hrun, heq⟩ := ih
    cases l with
    | nil =>
      have hlen := congrArg List.length heq
      rw [List.length_rotate] at hlen
      simp at hlen
    | cons b l =>
      refine ⟨b, l ++ [a], ?_, ?_⟩
      · rw [schedules_succ]
        exact hrun.schedule (h.schedules k)
      · rw [← List.rotate_rotate, ← heq]
        rfl

/-- With `n` tasks in the queue, one call lets the first one run and queues the one that was
running behind the last. Over `n + 1` calls each task of the queue runs, in its order, and then
the task that was running, each of them once; then the queue is as it was. Whenever that is,
these are the tasks there are. -/
theorem round_robin (h : s.Reachable) (hr : s.Runs c (t :: ts)) :
    (s.step (.schedule true)).Runs t (ts ++ [c]) ∧
      ((List.range (ts.length + 2)).map fun k =>
        (s.schedules (k + 1)).scheduler.tasks.currentTask) = (t :: ts ++ [c]).map some ∧
      (t :: ts ++ [c]).Nodup ∧
      (s.schedules (ts.length + 2)).Runs c (t :: ts) ∧
      ∀ k, ∃ a l, (s.schedules k).Runs a l ∧ (a :: l).Perm (c :: t :: ts) := by
  refine ⟨hr.schedule h, ?_, ?_, ?_, ?_⟩
  · have hlen : (t :: ts ++ [c]).length = ts.length + 2 := by
      rw [List.length_append, List.length_cons, List.length_singleton]
    refine List.ext_getElem? fun k => ?_
    by_cases hk : k < ts.length + 2
    · obtain ⟨a, l, hrun, heq⟩ := hr.schedules h (k + 1)
      have hhead : (t :: ts ++ [c])[k]? = some a := by
        rw [← List.head?_rotate (by rwa [hlen]), ← List.rotate_cons_succ, ← heq, List.head?_cons]
      rw [List.getElem?_map, List.getElem?_range hk, List.getElem?_map, hhead, Option.map_some,
        Option.map_some, hrun.current]
    · have hle : ts.length + 2 ≤ k := Nat.not_lt.mp hk
      rw [List.getElem?_eq_none (by rwa [List.length_map, List.length_range]),
        List.getElem?_eq_none (by rwa [List.length_map, hlen])]
  · obtain ⟨l, hinv⟩ := h.inv
    obtain rfl := hinv.tasks.queue.forward.unique hr.queue
    refine List.nodup_append.mpr ⟨hinv.tasks.queue.nodup, List.nodup_singleton c, ?_⟩
    rintro a ha b hb rfl
    rw [List.mem_singleton.mp hb] at ha
    exact hinv.tasks.not_mem_of_running hr.running ha
  · obtain ⟨a, l, hrun, heq⟩ := hr.schedules h (ts.length + 2)
    rw [show ts.length + 2 = (c :: t :: ts).length from rfl, List.rotate_length] at heq
    obtain ⟨rfl, rfl⟩ := List.cons.inj heq
    exact hrun
  · intro k
    obtain ⟨a, l, hrun, heq⟩ := hr.schedules h k
    exact ⟨a, l, hrun, heq ▸ List.rotate_perm _ k⟩

/-- The system before the first task is created. -/
def noTasks : TaskSystem :=
  ⟨⟨TaskManager.initializeTasks fun _ => TaskManager.newTask 0 0 0 0, false, 0⟩, []⟩

/-- Two tasks are created and queued, and the first one runs. -/
def twoTasks : List TaskOp :=
  [.createTask 0x1000 0x2000 0x400000 0x6000, .addToReadyQueue 0x1000,
    .createTask 0x7000 0x8000 0x400000 0x6000, .addToReadyQueue 0x7000, .setEnabled true,
    .schedule true]

/-- Two tasks take turns. -/
theorem round_robin_two :
    let s := twoTasks.foldl TaskSystem.step noTasks
    (s.step (.schedule true)).Runs 0x7000 [0x1000] ∧
      ((List.range 2).map fun k => (s.schedules (k + 1)).scheduler.tasks.currentTask) =
        [some 0x7000, some 0x1000] ∧
      (s.schedules 2).Runs 0x1000 [0x7000] := by
  intro s
  have hreach : s.Reachable := by
    simp only [s, twoTasks, List.foldl_cons, List.foldl_nil]
    refine .step _ (.step _ (.step _ (.step _ (.step _ (.step _ (.start _) ?_) ?_) ?_) ?_) ?_) ?_
    all_goals simp [TaskSystem.Admissible, TaskSystem.step, TaskSystem.onTasks,
      TaskManager.createTask, noTasks]
  have hruns : s.Runs 0x1000 [0x7000] := ⟨by decide, by decide, by decide, by decide, rfl⟩
  obtain ⟨hnext, hall, -, hback, -⟩ := round_robin hreach hruns
  exact ⟨hnext, hall, hback⟩

end TaskSystem

end Sylphia
