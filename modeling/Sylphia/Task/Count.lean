import Sylphia.Task.AppFrames

/-!
# The number of tasks

`task_count_` is adjusted in `CreateTask` and in `TerminateTask`, which `CreateAppTask` calls
when it fails and `TaskExit` when a task ends. The `Exit` system call of an app task takes the
task out of the queue by itself, and the count stays as it is.
-/

namespace Sylphia

open Transition

namespace TaskManager

/-- `TaskManager::GetTaskCount`. -/
def getTaskCount (tm : TaskManager) : Nat := tm.taskCount

end TaskManager

namespace AppKernel

/-- An operation of the task manager on its own data. -/
def onTasks (k : AppKernel) (f : TaskManager → TaskManager) : AppKernel :=
  { k with tasks := f k.tasks }

/-- What `Exit` does for the current task when that is an app task, up to `ExitApp`: the task
leaves the queue, and its page table and its `argv` array are given back. -/
def exitTask (k : AppKernel) (task : TaskPtr) : AppKernel :=
  let t := k.tasks.task task
  let k := { k with pm := k.pm.switchPageTable k.pm.getKernelCR3 }
  let k := k.onTasks fun tm =>
    ((tm.removeFromReadyQueue task).setState task .terminated).setCurrentTask none
  (k.freeTable t).freeArgv t

end AppKernel

/-- The task manager with all that it works on, the scheduler's own members, and the tasks that
were returned by a creation call and have been neither terminated nor exited. -/
structure TaskKernel where
  kernel : AppKernel
  /-- `enabled_`. -/
  enabled : Bool
  /-- `schedule_count_`. -/
  scheduleCount : Nat
  live : List TaskPtr

/-- The calls by which tasks come, go and become current. -/
inductive TaskCall
  | createTask (entryPoint : Nat)
  | createAppTask (wrapperEntry appEntry : Nat)
  | terminateTask (p : TaskPtr)
  /-- The `Exit` system call of the current task. -/
  | exit
  /-- The `TaskExit` system call of the current task. -/
  | taskExit
  | addToReadyQueue (p : TaskPtr)
  | removeFromReadyQueue (p : TaskPtr)
  | blockTask (p : TaskPtr)
  | wakeTask (p : TaskPtr)
  | schedule (voluntary : Bool)
  | setEnabled (enabled : Bool)

namespace TaskKernel

/-- The task that is executing. -/
def current (s : TaskKernel) : Option TaskPtr := s.kernel.tasks.currentTask

/-- An operation of the task manager on its own data. -/
def onTasks (s : TaskKernel) (f : TaskManager → TaskManager) : TaskKernel :=
  { s with kernel := s.kernel.onTasks f }

/-- `Scheduler::Schedule`. -/
def schedule (s : TaskKernel) (voluntary : Bool) : TaskKernel :=
  let r := (Scheduler.schedule ⟨s.kernel.tasks, s.enabled, s.scheduleCount⟩ voluntary).1
  { s with kernel := { s.kernel with tasks := r.tasks }, enabled := r.enabled,
           scheduleCount := r.scheduleCount }

/-- One call. -/
def step (s : TaskKernel) : TaskCall → TaskKernel
  | .createTask entryPoint =>
    let r := s.kernel.createTask entryPoint
    { s with kernel := r.2, live := r.1.toList ++ s.live }
  | .createAppTask wrapperEntry appEntry =>
    let r := s.kernel.createAppTask wrapperEntry appEntry
    { s with kernel := r.2, live := r.1.toList ++ s.live }
  | .terminateTask p => { s with kernel := s.kernel.terminateTask p, live := s.live.erase p }
  | .exit =>
    match s.current with
    | some t =>
      if (s.kernel.tasks.task t).isApp then
        { s with kernel := s.kernel.exitTask t, live := s.live.erase t }
      else s
    | none => s
  | .taskExit =>
    match s.current with
    | some t =>
      let s := { s with kernel := s.kernel.terminateTask t, live := s.live.erase t }
      (s.onTasks (·.setCurrentTask none)).schedule false
    | none => s
  | .addToReadyQueue p => s.onTasks (·.addToReadyQueue p)
  | .removeFromReadyQueue p => s.onTasks (·.removeFromReadyQueue p)
  | .blockTask p => s.onTasks (·.blockTask p)
  | .wakeTask p => s.onTasks (·.wakeTask p)
  | .schedule voluntary => s.schedule voluntary
  | .setEnabled enabled => { s with enabled }

/-- Only tasks that there are make system calls and are terminated. -/
def Admissible (s : TaskKernel) : TaskCall → Prop
  | .terminateTask p => p ∈ s.live
  | .exit | .taskExit => ∀ t ∈ s.current, t ∈ s.live
  | _ => True

instance (s : TaskKernel) : (c : TaskCall) → Decidable (s.Admissible c)
  | .terminateTask p => inferInstanceAs (Decidable (p ∈ s.live))
  | .exit | .taskExit => inferInstanceAs (Decidable (∀ t ∈ s.current, t ∈ s.live))
  | .createTask _ | .createAppTask _ _ | .addToReadyQueue _ | .removeFromReadyQueue _
  | .blockTask _ | .wakeTask _ | .schedule _ | .setEnabled _ => inferInstanceAs (Decidable True)

/-- After `TaskManager::Initialize` there are no tasks. -/
def Start (s : TaskKernel) : Prop :=
  s.live = [] ∧ ∃ task, s.kernel.tasks = TaskManager.initializeTasks task

/-- The runs of the system. -/
abbrev Runs : List (TaskKernel × TaskCall) → TaskKernel → Prop := Run step Admissible Start

/-- `GetTaskCount` gives the number of tasks that there are. -/
def CountsTasks (s : TaskKernel) : Prop := s.kernel.tasks.getTaskCount = s.live.length

/-- An app task ends by the `Exit` system call. -/
def exitsApp (x : TaskKernel × TaskCall) : Bool :=
  match x.2, x.1.current with
  | .exit, some t => (x.1.kernel.tasks.task t).isApp
  | _, _ => false

end TaskKernel

/-! ## The count -/

namespace TaskManager

variable (tm : TaskManager) (p : TaskPtr)

@[simp] theorem taskCount_setState (v : TaskState) :
    (tm.setState p v).taskCount = tm.taskCount := rfl

@[simp] theorem taskCount_setCurrentTask (v : Option TaskPtr) :
    (tm.setCurrentTask v).taskCount = tm.taskCount := rfl

@[simp] theorem taskCount_removeFromReadyQueue :
    (tm.removeFromReadyQueue p).taskCount = tm.taskCount := by
  have hprev (tm : TaskManager) : (tm.bridgePrev p).taskCount = tm.taskCount := by
    rw [bridgePrev]
    split <;> rfl
  have hnext (tm : TaskManager) : (tm.bridgeNext p).taskCount = tm.taskCount := by
    rw [bridgeNext]
    split <;> rfl
  exact (hnext _).trans (hprev _)

@[simp] theorem taskCount_addToReadyQueue : (tm.addToReadyQueue p).taskCount = tm.taskCount := by
  rw [addToReadyQueue]
  split
  · rfl
  · dsimp only
    split <;> rfl

@[simp] theorem taskCount_blockTask : (tm.blockTask p).taskCount = tm.taskCount :=
  taskCount_removeFromReadyQueue tm p

@[simp] theorem taskCount_wakeTask : (tm.wakeTask p).taskCount = tm.taskCount := by
  rw [wakeTask]
  split
  · exact taskCount_addToReadyQueue tm p
  · rfl

theorem taskCount_terminateTask : (tm.terminateTask p).taskCount = tm.taskCount - 1 :=
  congrArg (· - 1) (taskCount_removeFromReadyQueue tm p)

end TaskManager

theorem Scheduler.taskCount_schedule (s : Scheduler) (voluntary : Bool) :
    (s.schedule voluntary).1.tasks.taskCount = s.tasks.taskCount := by
  have hrequeue (tm : TaskManager) : (requeueCurrent tm).taskCount = tm.taskCount := by
    rw [requeueCurrent]
    split
    · split
      · simp
      · rfl
    · rfl
  rw [schedule]
  split
  · rfl
  · split
    · rfl
    · split
      · rfl
      · split
        · rfl
        · simp [dispatch, hrequeue]

namespace AppKernel

variable (k : AppKernel)

theorem tasks_freeTable (t : Task) : (k.freeTable t).tasks = k.tasks := by
  rw [freeTable]
  split <;> rfl

theorem tasks_freeArgv (t : Task) : (k.freeArgv t).tasks = k.tasks := by
  rw [freeArgv]
  split <;> rfl

theorem tasks_terminateTask (p : TaskPtr) :
    (k.terminateTask p).tasks = k.tasks.terminateTask p := by
  have hstack (k : AppKernel) (t : Task) : (if t.kernelStack ≠ 0 then
      k.onFrames fun frames => frames.free t.kernelStack t.kernelStackSize else k).tasks =
        k.tasks := by
    split <;> rfl
  rw [terminateTask]
  refine (hstack _ _).trans ?_
  split
  · rw [tasks_freeArgv, tasks_freeTable]
  · rfl

/-- `CreateTask` counts the task it returns. -/
theorem taskCount_createTask (entryPoint : Nat) :
    (k.createTask entryPoint).2.tasks.taskCount =
      k.tasks.taskCount + (k.createTask entryPoint).1.toList.length := by
  rw [createTask]
  dsimp only
  split
  · rfl
  · next htask =>
    split
    · rfl
    · next hstack =>
      rw [TaskManager.createTask, if_neg htask, if_neg hstack]
      rfl

/-- `CreateAppTask` counts the task it returns; what it gives up it has terminated. -/
theorem taskCount_createAppTask (wrapperEntry appEntry : Nat) :
    (k.createAppTask wrapperEntry appEntry).2.tasks.taskCount =
      k.tasks.taskCount + (k.createAppTask wrapperEntry appEntry).1.toList.length := by
  have hcount := k.taskCount_createTask wrapperEntry
  rw [createAppTask]
  split
  · next k₁ heq =>
    rw [heq] at hcount
    exact hcount
  · next task k₁ heq =>
    rw [heq] at hcount
    have hone : k₁.tasks.taskCount = k.tasks.taskCount + 1 := hcount
    dsimp only
    split
    · rw [tasks_terminateTask, TaskManager.taskCount_terminateTask]
      exact congrArg (· - 1) hone
    · split
      · rw [tasks_terminateTask, TaskManager.taskCount_terminateTask]
        exact congrArg (· - 1) hone
      · exact hone

/-- `Exit` leaves the count. -/
theorem taskCount_exitTask (p : TaskPtr) : (k.exitTask p).tasks.taskCount = k.tasks.taskCount := by
  rw [exitTask, tasks_freeArgv, tasks_freeTable, onTasks]
  simp

end AppKernel

namespace TaskKernel

variable {s : TaskKernel} {c : TaskCall} {run : List (TaskKernel × TaskCall)}

/-- One call keeps the count apart from the tasks by as much as it was, and by one more when an
app task ends by `Exit`. -/
theorem count_step {n : Nat} (h : s.kernel.tasks.taskCount = s.live.length + n)
    (hok : s.Admissible c) :
    (s.step c).kernel.tasks.taskCount =
      (s.step c).live.length + (n + (exitsApp (s, c)).toNat) := by
  have hgone {t : TaskPtr} (ht : t ∈ s.live) : s.live.length = (s.live.erase t).length + 1 := by
    rw [List.length_erase_of_mem ht]
    have := List.length_pos_of_mem ht
    omega
  cases c with
  | createTask entryPoint =>
    have := s.kernel.taskCount_createTask entryPoint
    simp only [step, exitsApp, List.length_append, Bool.toNat_false]
    omega
  | createAppTask wrapperEntry appEntry =>
    have := s.kernel.taskCount_createAppTask wrapperEntry appEntry
    simp only [step, exitsApp, List.length_append, Bool.toNat_false]
    omega
  | terminateTask p =>
    have := hgone hok
    simp only [step, exitsApp, Bool.toNat_false, AppKernel.tasks_terminateTask,
      TaskManager.taskCount_terminateTask]
    omega
  | exit =>
    simp only [step, exitsApp]
    split
    · next t ht =>
      split
      · next happ =>
        have := hgone (hok t ht)
        rw [ht]
        dsimp only
        rw [AppKernel.taskCount_exitTask, happ, Bool.toNat_true]
        omega
      · next happ =>
        rw [ht]
        dsimp only
        rw [Bool.eq_false_iff.mpr happ]
        exact h
    · next ht =>
      rw [ht]
      exact h
  | taskExit =>
    simp only [step, exitsApp, Bool.toNat_false]
    split
    · next t ht =>
      have := hgone (hok t ht)
      rw [schedule]
      dsimp only
      rw [Scheduler.taskCount_schedule]
      simp only [onTasks, AppKernel.onTasks, TaskManager.taskCount_setCurrentTask,
        AppKernel.tasks_terminateTask, TaskManager.taskCount_terminateTask]
      omega
    · exact h
  | addToReadyQueue p => exact (s.kernel.tasks.taskCount_addToReadyQueue p).trans h
  | removeFromReadyQueue p => exact (s.kernel.tasks.taskCount_removeFromReadyQueue p).trans h
  | blockTask p => exact (s.kernel.tasks.taskCount_blockTask p).trans h
  | wakeTask p => exact (s.kernel.tasks.taskCount_wakeTask p).trans h
  | schedule voluntary => exact (Scheduler.taskCount_schedule _ voluntary).trans h
  | setEnabled enabled => exact h

/-- The count has one more for each app task that has ended by `Exit`. -/
theorem Runs.taskCount (h : Runs run s) :
    s.kernel.tasks.taskCount = s.live.length + run.countP exitsApp := by
  refine Run.invariant (I := fun run s =>
    s.kernel.tasks.taskCount = s.live.length + run.countP exitsApp) h ?_ ?_
  · rintro s ⟨hlive, task, htasks⟩
    rw [hlive, htasks]
    rfl
  · intro past s c hcount hok
    rw [count_step hcount hok, List.countP_cons]
    cases exitsApp (s, c) <;> rfl

/-- `GetTaskCount` gives the number of tasks after every run in which no app task ends by the
`Exit` system call, and after no other. -/
theorem task_count_iff (h : Runs run s) : CountsTasks s ↔ ∀ x ∈ run, exitsApp x = false := by
  rw [CountsTasks, TaskManager.getTaskCount, h.taskCount, Nat.add_eq_left, List.countP_eq_zero]
  simp only [Bool.not_eq_true]

/-- The kernel after its start, with frames for one app task. -/
def smallTasks : TaskKernel where
  kernel := AppTaskSystem.smallApps.kernel
  enabled := false
  scheduleCount := 0
  live := []

theorem smallTasks_start : smallTasks.Start := ⟨rfl, _, rfl⟩

/-- An app task is created, becomes current, and ends by `TaskExit`. -/
def taskExits : List TaskCall :=
  [.createAppTask 0x1000 0x2000, .addToReadyQueue 0x43000, .setEnabled true, .schedule true,
    .taskExit]

/-- An app task that ends by `TaskExit` is no longer counted. -/
theorem task_count_taskExit : CountsTasks (record step [] smallTasks taskExits).2 ∧
    (record step [] smallTasks taskExits).2.kernel.tasks.getTaskCount = 0 := by
  have heval : Allowed step Admissible smallTasks taskExits ∧
      (∀ x ∈ (record step [] smallTasks taskExits).1, exitsApp x = false) ∧
      (record step [] smallTasks taskExits).2.kernel.tasks.getTaskCount = 0 := by
    decide +kernel
  obtain ⟨hok, hnone, hcount⟩ := heval
  have hrun : Runs _ _ := (Run.start smallTasks_start).record hok
  exact ⟨(task_count_iff hrun).mpr hnone, hcount⟩

/-- An app task is created, becomes current, and ends by `Exit`. -/
def appExits : List TaskCall :=
  [.createAppTask 0x1000 0x2000, .addToReadyQueue 0x43000, .setEnabled true, .schedule true, .exit]

/-- The task that ended by `Exit` is still counted. -/
theorem task_count_exit : Runs (record step [] smallTasks appExits).1
      (record step [] smallTasks appExits).2 ∧
    (record step [] smallTasks appExits).2.live = [] ∧
    (record step [] smallTasks appExits).2.kernel.tasks.getTaskCount = 1 ∧
    ¬CountsTasks (record step [] smallTasks appExits).2 := by
  have heval : Allowed step Admissible smallTasks appExits ∧
      (record step [] smallTasks appExits).2.live = [] ∧
      (record step [] smallTasks appExits).2.kernel.tasks.getTaskCount = 1 := by
    decide +kernel
  obtain ⟨hok, hlive, hcount⟩ := heval
  refine ⟨(Run.start smallTasks_start).record hok, hlive, hcount, fun hcounts => ?_⟩
  rw [CountsTasks, hcount, hlive] at hcounts
  cases hcounts

end TaskKernel

end Sylphia
