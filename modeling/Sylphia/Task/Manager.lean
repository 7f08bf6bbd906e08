import Mathlib.Logic.Function.Basic

/-!
# Tasks, the ready queue and the scheduler

`TaskManager` of `task_manager.cpp` and `Scheduler` of `scheduler.cpp`. Tasks live
in memory at the pointers that name them; the ready queue is threaded through their
`next` and `prev` fields. A null pointer is `none` where the source tests for it.
-/

namespace Sylphia

/-- The address of a task control block. -/
abbrev TaskPtr := Nat

/-- `TaskState`. -/
inductive TaskState
  | ready
  | running
  | blocked
  | terminated
  deriving DecidableEq, Repr

/-- The saved registers of `TaskContext` that the kernel code itself sets or reads. -/
structure TaskContext where
  rsp : Nat
  rip : Nat
  rflags : Nat
  cr3 : Nat
  deriving DecidableEq, Repr

/-- `Task`, the task control block. -/
structure Task where
  taskId : Nat
  state : TaskState
  context : TaskContext
  kernelStack : Nat
  kernelStackSize : Nat
  next : Option TaskPtr
  prev : Option TaskPtr
  entryPoint : Nat
  argc : Nat
  argv : Nat
  isApp : Bool
  userStack : Nat
  userStackSize : Nat
  userStackTop : Nat
  deriving DecidableEq, Repr

/-- `kKernelStackSize`. -/
def kKernelStackSize : Nat := 16 * 1024

/-- The static members of `TaskManager`, and the task control blocks in memory. -/
structure TaskManager where
  /-- `current_task_`. -/
  currentTask : Option TaskPtr
  /-- `ready_queue_head_`. -/
  readyQueueHead : Option TaskPtr
  /-- `ready_queue_tail_`. -/
  readyQueueTail : Option TaskPtr
  /-- `next_task_id_`. -/
  nextTaskId : Nat
  /-- `task_count_`. -/
  taskCount : Nat
  /-- The control block at each address. -/
  task : TaskPtr → Task

namespace TaskManager

/-- The `next` links. -/
def next (tm : TaskManager) (p : TaskPtr) : Option TaskPtr := (tm.task p).next

/-- The `prev` links. -/
def prev (tm : TaskManager) (p : TaskPtr) : Option TaskPtr := (tm.task p).prev

/-- The task states. -/
def state (tm : TaskManager) (p : TaskPtr) : TaskState := (tm.task p).state

/-- The kernel stacks: base address and size. -/
def stack (tm : TaskManager) (p : TaskPtr) : Nat × Nat :=
  ((tm.task p).kernelStack, (tm.task p).kernelStackSize)

/-- `kernel_stack + kernel_stack_size`. -/
def stackTop (tm : TaskManager) (p : TaskPtr) : Nat := (tm.stack p).1 + (tm.stack p).2

/-- `p->next = v`. -/
def setNext (tm : TaskManager) (p : TaskPtr) (v : Option TaskPtr) : TaskManager :=
  { tm with task := Function.update tm.task p { tm.task p with next := v } }

/-- `p->prev = v`. -/
def setPrev (tm : TaskManager) (p : TaskPtr) (v : Option TaskPtr) : TaskManager :=
  { tm with task := Function.update tm.task p { tm.task p with prev := v } }

/-- `p->state = v`. -/
def setState (tm : TaskManager) (p : TaskPtr) (v : TaskState) : TaskManager :=
  { tm with task := Function.update tm.task p { tm.task p with state := v } }

section Fields

variable (tm : TaskManager) (p : TaskPtr)

private theorem update_field {β : Type*} (g : Task → β) (t : Task) :
    (fun q => g (Function.update tm.task p t q)) =
      Function.update (fun q => g (tm.task q)) p (g t) := by
  funext q
  by_cases h : q = p
  · subst h
    simp
  · simp [h]

@[simp] theorem next_setNext (v : Option TaskPtr) :
    (tm.setNext p v).next = Function.update tm.next p v :=
  update_field tm p Task.next _

@[simp] theorem prev_setNext (v : Option TaskPtr) : (tm.setNext p v).prev = tm.prev :=
  (update_field tm p Task.prev _).trans (Function.update_eq_self p _)

@[simp] theorem state_setNext (v : Option TaskPtr) : (tm.setNext p v).state = tm.state :=
  (update_field tm p Task.state _).trans (Function.update_eq_self p _)

@[simp] theorem next_setPrev (v : Option TaskPtr) : (tm.setPrev p v).next = tm.next :=
  (update_field tm p Task.next _).trans (Function.update_eq_self p _)

@[simp] theorem prev_setPrev (v : Option TaskPtr) :
    (tm.setPrev p v).prev = Function.update tm.prev p v :=
  update_field tm p Task.prev _

@[simp] theorem state_setPrev (v : Option TaskPtr) : (tm.setPrev p v).state = tm.state :=
  (update_field tm p Task.state _).trans (Function.update_eq_self p _)

@[simp] theorem next_setState (v : TaskState) : (tm.setState p v).next = tm.next :=
  (update_field tm p Task.next _).trans (Function.update_eq_self p _)

@[simp] theorem prev_setState (v : TaskState) : (tm.setState p v).prev = tm.prev :=
  (update_field tm p Task.prev _).trans (Function.update_eq_self p _)

@[simp] theorem state_setState (v : TaskState) :
    (tm.setState p v).state = Function.update tm.state p v :=
  update_field tm p Task.state _

@[simp] theorem stack_setNext (v : Option TaskPtr) : (tm.setNext p v).stack = tm.stack :=
  (update_field tm p (fun t => (t.kernelStack, t.kernelStackSize)) _).trans
    (Function.update_eq_self p _)

@[simp] theorem stack_setPrev (v : Option TaskPtr) : (tm.setPrev p v).stack = tm.stack :=
  (update_field tm p (fun t => (t.kernelStack, t.kernelStackSize)) _).trans
    (Function.update_eq_self p _)

@[simp] theorem stack_setState (v : TaskState) : (tm.setState p v).stack = tm.stack :=
  (update_field tm p (fun t => (t.kernelStack, t.kernelStackSize)) _).trans
    (Function.update_eq_self p _)

@[simp] theorem readyQueueHead_setNext (v : Option TaskPtr) :
    (tm.setNext p v).readyQueueHead = tm.readyQueueHead := rfl
@[simp] theorem readyQueueHead_setPrev (v : Option TaskPtr) :
    (tm.setPrev p v).readyQueueHead = tm.readyQueueHead := rfl
@[simp] theorem readyQueueHead_setState (v : TaskState) :
    (tm.setState p v).readyQueueHead = tm.readyQueueHead := rfl

@[simp] theorem readyQueueTail_setNext (v : Option TaskPtr) :
    (tm.setNext p v).readyQueueTail = tm.readyQueueTail := rfl
@[simp] theorem readyQueueTail_setPrev (v : Option TaskPtr) :
    (tm.setPrev p v).readyQueueTail = tm.readyQueueTail := rfl
@[simp] theorem readyQueueTail_setState (v : TaskState) :
    (tm.setState p v).readyQueueTail = tm.readyQueueTail := rfl

@[simp] theorem currentTask_setNext (v : Option TaskPtr) :
    (tm.setNext p v).currentTask = tm.currentTask := rfl
@[simp] theorem currentTask_setPrev (v : Option TaskPtr) :
    (tm.setPrev p v).currentTask = tm.currentTask := rfl
@[simp] theorem currentTask_setState (v : TaskState) :
    (tm.setState p v).currentTask = tm.currentTask := rfl

end Fields

/-- `TaskManager::Initialize`; what memory holds is left as it is. -/
def initializeTasks (task : TaskPtr → Task) : TaskManager where
  currentTask := none
  readyQueueHead := none
  readyQueueTail := none
  nextTaskId := 0
  taskCount := 0
  task := task

/-- The control block that `CreateTask` fills in: all bytes zero except these fields. -/
def newTask (taskId stack entryPoint cr3 : Nat) : Task where
  taskId := taskId
  state := .ready
  context :=
    -- The stack top is aligned to 16 and the entry point pushed for `SwitchContext`'s `ret`.
    { rsp := (stack + kKernelStackSize) / 16 * 16 - 8, rip := entryPoint, rflags := 0x202, cr3 }
  kernelStack := stack
  kernelStackSize := kKernelStackSize
  next := none
  prev := none
  entryPoint := 0
  argc := 0
  argv := 0
  isApp := false
  userStack := 0
  userStackSize := 0
  userStackTop := 0

/-- `TaskManager::CreateTask`, where `MemoryManager::Allocate` has returned `task` for
the control block and `stack` for the kernel stack; a null result makes it fail. -/
def createTask (tm : TaskManager) (task stack entryPoint cr3 : Nat) :
    Option TaskPtr × TaskManager :=
  if task = 0 then (none, tm)
  else if stack = 0 then (none, tm)
  else
    (some task,
      { tm with
        nextTaskId := tm.nextTaskId + 1
        taskCount := tm.taskCount + 1
        task := Function.update tm.task task (newTask tm.nextTaskId stack entryPoint cr3) })

/-- `TaskManager::SetCurrentTask`. -/
def setCurrentTask (tm : TaskManager) (task : Option TaskPtr) : TaskManager :=
  { tm with currentTask := task }

/-- `TaskManager::GetNextTask`: the head of the ready queue. -/
def getNextTask (tm : TaskManager) : Option TaskPtr := tm.readyQueueHead

/-- `TaskManager::AddToReadyQueue`. -/
def addToReadyQueue (tm : TaskManager) (task : TaskPtr) : TaskManager :=
  if tm.next task ≠ none ∨ tm.prev task ≠ none ∨ some task = tm.readyQueueHead then tm
  else
    let tm := ((tm.setState task .ready).setNext task none).setPrev task tm.readyQueueTail
    let tm :=
      match tm.readyQueueTail with
      | some tail => tm.setNext tail (some task)
      | none => { tm with readyQueueHead := some task }
    { tm with readyQueueTail := some task }

/-- The first half of `RemoveFromReadyQueue`: an end of the queue that is the task moves
to its neighbour. -/
def detachEnds (tm : TaskManager) (task : TaskPtr) : TaskManager :=
  { tm with
    readyQueueHead := if some task = tm.readyQueueHead then tm.next task else tm.readyQueueHead
    readyQueueTail := if some task = tm.readyQueueTail then tm.prev task else tm.readyQueueTail }

/-- `if (task->prev) task->prev->next = task->next`. -/
def bridgePrev (tm : TaskManager) (task : TaskPtr) : TaskManager :=
  match tm.prev task with
  | some p => tm.setNext p (tm.next task)
  | none => tm

/-- `if (task->next) task->next->prev = task->prev`. -/
def bridgeNext (tm : TaskManager) (task : TaskPtr) : TaskManager :=
  match tm.next task with
  | some n => tm.setPrev n (tm.prev task)
  | none => tm

/-- `TaskManager::RemoveFromReadyQueue`. -/
def removeFromReadyQueue (tm : TaskManager) (task : TaskPtr) : TaskManager :=
  let tm := ((tm.detachEnds task).bridgePrev task).bridgeNext task
  (tm.setNext task none).setPrev task none

/-- `TaskManager::BlockTask`. -/
def blockTask (tm : TaskManager) (task : TaskPtr) : TaskManager :=
  (tm.removeFromReadyQueue task).setState task .blocked

/-- `TaskManager::WakeTask`. -/
def wakeTask (tm : TaskManager) (task : TaskPtr) : TaskManager :=
  if tm.state task = .blocked then tm.addToReadyQueue task else tm

/-- `TaskManager::TerminateTask`, as far as it concerns the task manager's own data;
the frames it gives back belong to the memory manager. -/
def terminateTask (tm : TaskManager) (task : TaskPtr) : TaskManager :=
  let tm := (tm.removeFromReadyQueue task).setState task .terminated
  { tm with taskCount := tm.taskCount - 1 }

end TaskManager

/-- The static members of `Scheduler` beside the task manager's. -/
structure Scheduler where
  tasks : TaskManager
  /-- `enabled_`. -/
  enabled : Bool
  /-- `schedule_count_`. -/
  scheduleCount : Nat

/-- A call `SwitchContext(old, new)`; `none` stands for the dummy context that is
saved to when there is no current task. -/
structure ContextSwitch where
  old : Option TaskPtr
  new : TaskPtr
  deriving DecidableEq, Repr

namespace Scheduler

/-- Does the source skip this timer preemption? It does while an app task is running,
unless the task yields by itself. -/
def skipsPreemption (tm : TaskManager) (voluntary : Bool) : Bool :=
  match tm.currentTask with
  | some current => !voluntary && (tm.task current).isApp && tm.state current = .running
  | none => false

/-- The running task goes back to the end of the ready queue. -/
def requeueCurrent (tm : TaskManager) : TaskManager :=
  match tm.currentTask with
  | some current =>
    if tm.state current = .running then
      ((tm.removeFromReadyQueue current).setState current .ready).addToReadyQueue current
    else tm
  | none => tm

/-- The chosen task leaves the ready queue and becomes the current task. -/
def dispatch (tm : TaskManager) (next : TaskPtr) : TaskManager :=
  ((tm.removeFromReadyQueue next).setState next .running).setCurrentTask (some next)

/-- `Scheduler::Schedule`, with the context switch it performs, if any. -/
def schedule (s : Scheduler) (voluntary : Bool) : Scheduler × Option ContextSwitch :=
  if !s.enabled then (s, none)
  else
    match s.tasks.getNextTask with
    | none => (s, none)
    | some next =>
      if s.tasks.currentTask = some next then (s, none)
      else if skipsPreemption s.tasks voluntary then (s, none)
      else
        ({ s with
            tasks := dispatch (requeueCurrent s.tasks) next
            scheduleCount := s.scheduleCount + 1 },
          some ⟨s.tasks.currentTask, next⟩)

end Scheduler

end Sylphia
