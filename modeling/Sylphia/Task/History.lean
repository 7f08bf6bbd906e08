import Sylphia.Task.ReadyQueue

/-!
# Task histories

Every operation of the task manager and every call of the scheduler keeps the ready
queue sound and lets at most the current task be running, whatever the order in which
they are applied to live tasks.
-/

namespace Sylphia

open LinkedList

/-- The task manager and scheduler, with the tasks created and not yet terminated. -/
structure TaskSystem where
  scheduler : Scheduler
  live : List TaskPtr

/-- The operations of a history. `markApp` is the assignment of `is_app` in
`CreateAppTask`; `terminate` clears `current_task_` when it names the task. -/
inductive TaskOp
  | createTask (task stack entryPoint cr3 : Nat)
  | markApp (p : TaskPtr)
  | addToReadyQueue (p : TaskPtr)
  | removeFromReadyQueue (p : TaskPtr)
  | blockTask (p : TaskPtr)
  | wakeTask (p : TaskPtr)
  | terminate (p : TaskPtr)
  | schedule (voluntary : Bool)
  | setEnabled (enabled : Bool)

namespace TaskSystem

/-- Apply an operation of the task manager. -/
def onTasks (s : TaskSystem) (f : TaskManager → TaskManager) : TaskSystem :=
  { s with scheduler := { s.scheduler with tasks := f s.scheduler.tasks } }

/-- `TerminateTask`, then `SetCurrentTask(nullptr)` if it was the current task. -/
def terminateAndClear (tm : TaskManager) (p : TaskPtr) : TaskManager :=
  if tm.currentTask = some p then (tm.terminateTask p).setCurrentTask none
  else tm.terminateTask p

/-- One operation, and its effect on the set of live tasks. -/
def step (s : TaskSystem) : TaskOp → TaskSystem
  | .createTask task stack entryPoint cr3 =>
    let result := s.scheduler.tasks.createTask task stack entryPoint cr3
    { scheduler := { s.scheduler with tasks := result.2 }, live := result.1.toList ++ s.live }
  | .markApp p => s.onTasks fun tm =>
    { tm with task := Function.update tm.task p { tm.task p with isApp := true } }
  | .addToReadyQueue p => s.onTasks (·.addToReadyQueue p)
  | .removeFromReadyQueue p => s.onTasks (·.removeFromReadyQueue p)
  | .blockTask p => s.onTasks (·.blockTask p)
  | .wakeTask p => s.onTasks (·.wakeTask p)
  | .terminate p => { s.onTasks (terminateAndClear · p) with live := s.live.erase p }
  | .schedule voluntary => { s with scheduler := (s.scheduler.schedule voluntary).1 }
  | .setEnabled enabled => { s with scheduler := { s.scheduler with enabled } }

/-- Operations apply to live tasks, and new memory is not that of a live task. -/
def Admissible (s : TaskSystem) : TaskOp → Prop
  | .createTask task _ _ _ => task ∉ s.live
  | .markApp p | .addToReadyQueue p | .removeFromReadyQueue p | .blockTask p | .wakeTask p
  | .terminate p => p ∈ s.live
  | .schedule _ | .setEnabled _ => True

instance decidableAdmissible (s : TaskSystem) : (op : TaskOp) → Decidable (s.Admissible op)
  | .createTask task _ _ _ => inferInstanceAs (Decidable (task ∉ s.live))
  | .markApp p | .addToReadyQueue p | .removeFromReadyQueue p | .blockTask p | .wakeTask p
  | .terminate p => inferInstanceAs (Decidable (p ∈ s.live))
  | .schedule _ | .setEnabled _ => inferInstanceAs (Decidable True)

/-- The states reached from `TaskManager::Initialize` and `Scheduler::Initialize`. -/
inductive Reachable : TaskSystem → Prop
  | start (task : TaskPtr → Task) :
      Reachable ⟨⟨TaskManager.initializeTasks task, false, 0⟩, []⟩
  | step {s : TaskSystem} (op : TaskOp) : Reachable s → s.Admissible op → Reachable (s.step op)

end TaskSystem

/-- The ready queue is sound, and only the current task can be running. -/
structure TaskManager.Inv (tm : TaskManager) (live l : List TaskPtr) : Prop where
  queue : ReadyQueue tm live l
  running : ∀ p ∈ live, tm.state p = .running → tm.currentTask = some p
  current : ∀ p, tm.currentTask = some p → p ∈ live

namespace TaskManager.Inv

variable {tm : TaskManager} {live l : List TaskPtr} {p : TaskPtr}

theorem remove (h : tm.Inv live l) (hp : p ∈ live) :
    (tm.removeFromReadyQueue p).Inv live (l.erase p) where
  queue := h.queue.remove hp
  running := by simpa using h.running
  current := by simpa using h.current

/-- A task outside the queue may take any state except `RUNNING`. -/
theorem setState (h : tm.Inv live l) (hl : p ∉ l) {v : TaskState} (hv : v ≠ .running) :
    (tm.setState p v).Inv live l where
  queue := h.queue.setState hl v
  running := by
    intro q hq hr
    rw [tm.state_setState] at hr
    by_cases hqp : q = p
    · subst hqp
      exact absurd (by simpa using hr) hv
    · rw [Function.update_of_ne hqp] at hr
      exact h.running q hq hr
  current := h.current

theorem add (h : tm.Inv live l) (hp : p ∈ live) :
    (tm.addToReadyQueue p).Inv live (if p ∈ l then l else l ++ [p]) := by
  by_cases hl : p ∈ l
  · rw [if_pos hl, h.queue.add_of_mem hp hl]
    exact h
  · rw [if_neg hl]
    obtain ⟨_, _, hstate, _, _, hcur⟩ := tm.add_fields (mt (h.queue.mem_iff_linked hp).mpr hl)
    refine ⟨h.queue.add_of_not_mem hp hl, fun q hq hr => ?_, fun q hq => ?_⟩
    · rw [hstate] at hr
      by_cases hqp : q = p
      · subst hqp
        simp at hr
      · rw [Function.update_of_ne hqp] at hr
        exact hcur.trans (h.running q hq hr)
    · exact h.current q (hcur.symm.trans hq)

theorem block (h : tm.Inv live l) (hp : p ∈ live) : (tm.blockTask p).Inv live (l.erase p) :=
  (h.remove hp).setState h.queue.nodup.not_mem_erase (by decide)

theorem wake (h : tm.Inv live l) (hp : p ∈ live) : ∃ l', (tm.wakeTask p).Inv live l' := by
  rw [TaskManager.wakeTask]
  split
  · exact ⟨_, h.add hp⟩
  · exact ⟨l, h⟩

/-- Terminating a task takes it out of the queue and out of the live set. -/
theorem terminate (h : tm.Inv live l) (hp : p ∈ live) (hn : live.Nodup) :
    (TaskSystem.terminateAndClear tm p).Inv (live.erase p) (l.erase p) := by
  have hr := (h.remove hp).setState (v := .terminated) h.queue.nodup.not_mem_erase (by decide)
  have hlive {q : TaskPtr} (hq : q ∈ live) (hne : q ≠ p) : q ∈ live.erase p :=
    (List.mem_erase_of_ne hne).mpr hq
  have hqueue (tm' : TaskManager) (hq : ReadyQueue tm' live (l.erase p)) :
      ReadyQueue tm' (live.erase p) (l.erase p) :=
    ⟨hq.nodup, hq.forward, hq.backward, fun q hm => hq.outside q (List.mem_of_mem_erase hm),
      fun q hm => ⟨hlive (hq.queued q hm).1 (ne_of_mem_of_not_mem hm h.queue.nodup.not_mem_erase),
        (hq.queued q hm).2⟩⟩
  have hne {q : TaskPtr} (hq : q ∈ live.erase p) : q ≠ p :=
    ne_of_mem_of_not_mem hq hn.not_mem_erase
  rw [TaskSystem.terminateAndClear]
  by_cases hc : tm.currentTask = some p
  · rw [if_pos hc]
    refine ⟨?_, fun q hq hs => ?_, fun q hq => by cases hq⟩
    · have hk := hqueue _ hr.queue
      exact ⟨hk.nodup, hk.forward, hk.backward, hk.outside, hk.queued⟩
    · have hcur := hr.running q (List.mem_of_mem_erase hq) hs
      rw [TaskManager.currentTask_setState, currentTask_remove, hc] at hcur
      exact absurd (Option.some.inj hcur).symm (hne hq)
  · rw [if_neg hc]
    refine ⟨?_, fun q hq hs => hr.running q (List.mem_of_mem_erase hq) hs, fun q hq => ?_⟩
    · have hk := hqueue _ hr.queue
      exact ⟨hk.nodup, hk.forward, hk.backward, hk.outside, hk.queued⟩
    · refine hlive (hr.current q hq) ?_
      rintro rfl
      exact hc ((currentTask_remove tm q).symm.trans hq)

/-- A running task is not queued. -/
theorem not_mem_of_running (h : tm.Inv live l) (hr : tm.state p = .running) : p ∉ l := by
  intro hm
  have hready := (h.queue.queued p hm).2
  rw [hr] at hready
  cases hready

/-- The task that runs goes to the end of the queue. -/
theorem requeue_running (h : tm.Inv live l) (hc : tm.currentTask = some p)
    (hr : tm.state p = .running) :
    (Scheduler.requeueCurrent tm).Inv live (l ++ [p]) ∧
      (Scheduler.requeueCurrent tm).state = Function.update tm.state p .ready := by
  have hlive := h.current p hc
  have hpl := h.not_mem_of_running hr
  have hs := (h.remove hlive).setState (v := .ready) h.queue.nodup.not_mem_erase (by decide)
  have ha := hs.add hlive
  rw [List.erase_of_not_mem hpl, if_neg hpl] at ha
  rw [List.erase_of_not_mem hpl] at hs
  have he : Scheduler.requeueCurrent tm =
      ((tm.removeFromReadyQueue p).setState p .ready).addToReadyQueue p := by
    simp only [Scheduler.requeueCurrent, hc, hr, if_true]
  rw [he]
  obtain ⟨_, _, hstate, _⟩ :=
    TaskManager.add_fields _ (mt (hs.queue.mem_iff_linked hlive).mpr hpl)
  refine ⟨ha, ?_⟩
  rw [hstate, state_setState, state_remove, Function.update_idem]

/-- After re-queueing, no live task is running, and the rest of the queue is as it was. -/
theorem requeue (h : tm.Inv live l) :
    ∃ l', (Scheduler.requeueCurrent tm).Inv live l' ∧
      (∀ q ∈ live, (Scheduler.requeueCurrent tm).state q ≠ .running) ∧
      ∀ q ∈ l, q ∈ l' := by
  cases hc : tm.currentTask with
  | none =>
    refine ⟨l, ?_, fun q hq hr => ?_, fun q hq => hq⟩
    · simpa only [Scheduler.requeueCurrent, hc] using h
    · simp only [Scheduler.requeueCurrent, hc] at hr
      exact absurd ((h.running q hq hr).symm.trans hc) (by simp)
  | some c =>
    by_cases hr : tm.state c = .running
    · obtain ⟨ha, hstate⟩ := h.requeue_running hc hr
      refine ⟨l ++ [c], ha, fun q hq hqr => ?_, fun q hq => List.mem_append_left _ hq⟩
      by_cases hqc : q = c
      · rw [hstate, hqc, Function.update_self] at hqr
        cases hqr
      · rw [hstate, Function.update_of_ne hqc] at hqr
        exact hqc (Option.some.inj ((h.running q hq hqr).symm.trans hc))
    · have he : Scheduler.requeueCurrent tm = tm := by
        simp only [Scheduler.requeueCurrent, hc, hr, if_false]
      rw [he]
      refine ⟨l, h, fun q hq hqr => hr ?_, fun q hq => hq⟩
      have hqc := h.running q hq hqr
      rw [hc] at hqc
      exact (Option.some.inj hqc) ▸ hqr

/-- Dispatching a queued task when nothing runs. -/
theorem dispatch (h : tm.Inv live l) (hnone : ∀ q ∈ live, tm.state q ≠ .running) (hl : p ∈ l) :
    (Scheduler.dispatch tm p).Inv live (l.erase p) := by
  have hp := (h.queue.queued p hl).1
  have hq := (h.queue.remove hp).setState h.queue.nodup.not_mem_erase .running
  refine ⟨⟨hq.nodup, hq.forward, hq.backward, hq.outside, hq.queued⟩, fun q hm hr => ?_,
    fun q hm => ?_⟩
  · by_cases hqp : q = p
    · exact congrArg some hqp.symm
    · change ((tm.removeFromReadyQueue p).setState p .running).state q = .running at hr
      rw [state_setState, Function.update_of_ne hqp, state_remove] at hr
      exact absurd hr (hnone q hm)
  · exact (Option.some.inj hm) ▸ hp

theorem schedule {s : Scheduler} (h : s.tasks.Inv live l) (voluntary : Bool) :
    ∃ l', (s.schedule voluntary).1.tasks.Inv live l' := by
  rw [Scheduler.schedule]
  split
  · exact ⟨l, h⟩
  · split
    · exact ⟨l, h⟩
    · next next hnext =>
      split
      · exact ⟨l, h⟩
      · split
        · exact ⟨l, h⟩
        · obtain ⟨l', hr, hnone, hsub⟩ := h.requeue
          have hmem : next ∈ l := by
            rw [TaskManager.getNextTask, h.queue.forward.start_eq] at hnext
            exact List.mem_of_head? hnext
          exact ⟨_, hr.dispatch hnone (hsub next hmem)⟩

/-- A task created in memory that no live task occupies. -/
theorem create (h : tm.Inv live l) {task : TaskPtr} (hfresh : task ∉ live) (t : Task)
    (hnext : t.next = none) (hprev : t.prev = none) (hstate : t.state = .ready)
    (nextTaskId taskCount : Nat) :
    ({ tm with nextTaskId, taskCount, task := Function.update tm.task task t } :
      TaskManager).Inv (task :: live) l := by
  have hne {q : TaskPtr} (hq : q ∈ l) : q ≠ task :=
    ne_of_mem_of_not_mem hq (h.queue.not_mem_of_not_live hfresh)
  refine ⟨⟨h.queue.nodup, h.queue.forward.congr fun q hq => ?_,
    h.queue.backward.congr fun q hq => ?_, fun q hq hl => ?_, fun q hq => ?_⟩,
    fun q hq hr => ?_, fun q hq => List.mem_cons_of_mem _ (h.current q hq)⟩
  · simp only [TaskManager.next, Function.update_of_ne (hne hq)]
  · simp only [TaskManager.prev, Function.update_of_ne (hne (List.mem_reverse.mp hq))]
  · by_cases hqt : q = task
    · subst hqt
      simp [TaskManager.next, TaskManager.prev, hnext, hprev]
    · simp only [TaskManager.next, TaskManager.prev, Function.update_of_ne hqt]
      exact h.queue.outside q ((List.mem_cons.mp hq).resolve_left hqt) hl
  · obtain ⟨hlive, hready⟩ := h.queue.queued q hq
    simp only [TaskManager.state, Function.update_of_ne (hne hq)]
    exact ⟨List.mem_cons_of_mem _ hlive, hready⟩
  · by_cases hqt : q = task
    · subst hqt
      simp [TaskManager.state, hstate] at hr
    · simp only [TaskManager.state, Function.update_of_ne hqt] at hr
      exact h.running q ((List.mem_cons.mp hq).resolve_left hqt) hr

/-- Setting a field that is neither a link nor the state changes nothing here. -/
theorem update_other (h : tm.Inv live l) (t : Task) (hnext : t.next = tm.next p)
    (hprev : t.prev = tm.prev p) (hstate : t.state = tm.state p) :
    ({ tm with task := Function.update tm.task p t } : TaskManager).Inv live l := by
  have hfield {β : Type} (g : Task → β) (hg : g t = g (tm.task p)) (q : TaskPtr) :
      g (Function.update tm.task p t q) = g (tm.task q) := by
    by_cases hq : q = p
    · rw [hq, Function.update_self, hg]
    · rw [Function.update_of_ne hq]
  refine ⟨⟨h.queue.nodup, h.queue.forward.congr fun q _ => hfield Task.next hnext q,
    h.queue.backward.congr fun q _ => hfield Task.prev hprev q, fun q hq hl => ?_,
    fun q hq => ?_⟩, fun q hq hr => h.running q hq ?_, h.current⟩
  · exact ⟨(hfield Task.next hnext q).trans (h.queue.outside q hq hl).1,
      (hfield Task.prev hprev q).trans (h.queue.outside q hq hl).2⟩
  · exact ⟨(h.queue.queued q hq).1, (hfield Task.state hstate q).trans (h.queue.queued q hq).2⟩
  · exact (hfield Task.state hstate q).symm.trans hr

end TaskManager.Inv

namespace TaskSystem

/-- Live tasks are at different addresses, and the task manager's invariant holds of them. -/
structure Inv (s : TaskSystem) (l : List TaskPtr) : Prop where
  live : s.live.Nodup
  tasks : s.scheduler.tasks.Inv s.live l

theorem Inv.createTask {s : TaskSystem} {l : List TaskPtr} (h : s.Inv l) {task : TaskPtr}
    (hfresh : task ∉ s.live) (stack entryPoint cr3 : Nat) :
    (s.step (.createTask task stack entryPoint cr3)).Inv l := by
  simp only [TaskSystem.step, TaskManager.createTask]
  split
  · exact h
  · split
    · exact h
    · exact ⟨List.nodup_cons.mpr ⟨hfresh, h.live⟩, h.tasks.create hfresh _ rfl rfl rfl _ _⟩

/-- One admissible operation keeps the invariant, for some new queue. -/
theorem Inv.step {s : TaskSystem} {l : List TaskPtr} (h : s.Inv l) {op : TaskOp}
    (ha : s.Admissible op) : ∃ l', (s.step op).Inv l' := by
  cases op with
  | createTask task stack entryPoint cr3 => exact ⟨l, h.createTask ha stack entryPoint cr3⟩
  | markApp p => exact ⟨l, h.live, h.tasks.update_other _ rfl rfl rfl⟩
  | addToReadyQueue p => exact ⟨_, h.live, h.tasks.add ha⟩
  | removeFromReadyQueue p => exact ⟨_, h.live, h.tasks.remove ha⟩
  | blockTask p => exact ⟨_, h.live, h.tasks.block ha⟩
  | wakeTask p =>
    obtain ⟨l', hw⟩ := h.tasks.wake ha
    exact ⟨l', h.live, hw⟩
  | terminate p => exact ⟨_, h.live.erase p, h.tasks.terminate ha h.live⟩
  | schedule voluntary =>
    obtain ⟨l', hs⟩ := h.tasks.schedule voluntary
    exact ⟨l', h.live, hs⟩
  | setEnabled enabled => exact ⟨l, h.live, h.tasks⟩

/-- The invariant holds in every reachable state. -/
theorem Reachable.inv {s : TaskSystem} (h : s.Reachable) : ∃ l, s.Inv l := by
  induction h with
  | start task =>
    refine ⟨[], List.nodup_nil, ⟨List.nodup_nil, rfl, rfl, ?_, ?_⟩, ?_, ?_⟩ <;>
      simp [TaskManager.initializeTasks]
  | step op _ ha ih =>
    obtain ⟨l, hl⟩ := ih
    exact hl.step ha

end TaskSystem

/-- In every reachable state one duplicate-free list of `READY` tasks is threaded by the
`next` links from the head and, reversed, by the `prev` links from the tail; other live
tasks have no links; and only the current task, outside the list, can be `RUNNING`. -/
theorem ready_queue_sound {s : TaskSystem} (h : s.Reachable) :
    let tm := s.scheduler.tasks
    ∃ l : List TaskPtr, l.Nodup ∧
      Segment tm.next tm.readyQueueHead l none ∧
      Segment tm.prev tm.readyQueueTail l.reverse none ∧
      (tm.readyQueueHead = none ↔ tm.readyQueueTail = none) ∧
      (∀ p ∈ s.live, p ∉ l → tm.next p = none ∧ tm.prev p = none) ∧
      (∀ p ∈ l, p ∈ s.live ∧ tm.state p = .ready) ∧
      ∀ p ∈ s.live, tm.state p = .running → tm.currentTask = some p ∧ p ∉ l := by
  obtain ⟨l, hinv⟩ := h.inv
  obtain ⟨hqueue, hrunning, -⟩ := hinv.tasks
  refine ⟨l, hqueue.nodup, hqueue.forward, hqueue.backward, hqueue.head_eq_none_iff,
    hqueue.outside, hqueue.queued, fun p hp hr => ⟨hrunning p hp hr, ?_⟩⟩
  exact hinv.tasks.not_mem_of_running hr

/-- A task is created, queued and dispatched; a second one stays alone in the queue. -/
theorem ready_queue_sound_dispatched :
    let start : TaskSystem :=
      ⟨⟨TaskManager.initializeTasks fun _ => TaskManager.newTask 0 0 0 0, false, 0⟩, []⟩
    let s := ([.createTask 0x1000 0x2000 0x400000 0x6000, .addToReadyQueue 0x1000,
      .createTask 0x7000 0x8000 0x400000 0x6000, .addToReadyQueue 0x7000,
      .setEnabled true, .schedule true] : List TaskOp).foldl TaskSystem.step start
    s.scheduler.tasks.currentTask = some 0x1000 ∧
      s.scheduler.tasks.readyQueueHead = some 0x7000 ∧
      ∃ l : List TaskPtr, l.Nodup ∧
        Segment s.scheduler.tasks.next s.scheduler.tasks.readyQueueHead l none := by
  intro start s
  have hreach : s.Reachable := by
    simp only [s, start, List.foldl_cons, List.foldl_nil]
    refine .step _ (.step _ (.step _ (.step _ (.step _ (.step _ (.start _) ?_) ?_) ?_) ?_) ?_) ?_
    all_goals simp [TaskSystem.Admissible, TaskSystem.step, TaskSystem.onTasks,
      TaskManager.createTask]
  obtain ⟨l, hnodup, hforward, -⟩ := ready_queue_sound hreach
  exact ⟨by decide, by decide, l, hnodup, hforward⟩

end Sylphia
