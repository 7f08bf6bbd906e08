import Sylphia.Paging.Release
import Sylphia.Task.Manager

/-!
# App tasks and their frames

`CreateTask`, `CreateAppTask` and `TerminateTask` of `task_manager.cpp` together with the
memory manager and the page manager that they call. What memory holds outside of page
tables, control blocks and the `argv` arrays is left out.
-/

namespace Sylphia

/-- `sizeof(Task)`. -/
def sizeofTask : Nat := 472

/-- `kUserStackTop` of `CreateAppTask`. -/
def kUserStackTop : Nat := 0x70000000

/-- `kUserStackSize` of `CreateAppTask`. -/
def kUserStackSize : Nat := 64 * 1024

/-- `kUserStackBase` of `CreateAppTask`. -/
def kUserStackBase : Nat := kUserStackTop - kUserStackSize

/-- The task manager with the frames and page tables it works on. -/
structure AppKernel where
  pm : PageManager
  tasks : TaskManager
  /-- The strings of the `argv` array at an address, each with its pointer and its length. -/
  argvStrings : Nat → List (Nat × Nat)

namespace AppKernel

/-- A call of the memory manager. -/
def onFrames (k : AppKernel) (f : MemoryManager → MemoryManager) : AppKernel :=
  { k with pm := { k.pm with frames := f k.pm.frames } }

/-- Assignments to fields of a control block. -/
def modifyTask (k : AppKernel) (task : TaskPtr) (f : Task → Task) : AppKernel :=
  { k with tasks :=
    { k.tasks with task := Function.update k.tasks.task task (f (k.tasks.task task)) } }

/-- `TaskManager::CreateTask`. -/
def createTask (k : AppKernel) (entryPoint : Nat) : Option TaskPtr × AppKernel :=
  let (task, frames) := k.pm.frames.allocate sizeofTask
  if task = 0 then (none, k.onFrames fun _ => frames)
  else
    let (stack, frames) := frames.allocate kKernelStackSize
    if stack = 0 then (none, k.onFrames fun _ => frames.free task sizeofTask)
    else
      let (created, tasks) := k.tasks.createTask task stack entryPoint k.pm.cr3
      (created, { k.onFrames fun _ => frames with tasks })

/-- The release of the strings of an `argv` array. -/
def freeStrings (frames : MemoryManager) : List (Nat × Nat) → MemoryManager
  | [] => frames
  | (ptr, len) :: strings =>
    freeStrings (if ptr ≠ 0 then frames.free ptr (len + 1) else frames) strings

/-- The release of the `argv` array of a task. -/
def freeArgv (k : AppKernel) (t : Task) : AppKernel :=
  if t.argv ≠ 0 then
    k.onFrames fun frames =>
      (freeStrings frames ((k.argvStrings t.argv).take t.argc)).free t.argv (8 * (t.argc + 1))
  else k

/-- The release of the page table of an app task, unless it is the kernel's. -/
def freeTable (k : AppKernel) (t : Task) : AppKernel :=
  if t.context.cr3 ≠ 0 ∧ t.context.cr3 ≠ k.pm.getKernelCR3 then
    { k with pm := k.pm.freeProcessPageTable t.context.cr3 }
  else k

/-- `TaskManager::TerminateTask`. -/
def terminateTask (k : AppKernel) (task : TaskPtr) : AppKernel :=
  let k := { k with tasks := k.tasks.terminateTask task }
  let t := k.tasks.task task
  let k := if t.isApp then (k.freeTable t).freeArgv t else k
  let k :=
    if t.kernelStack ≠ 0 then k.onFrames fun frames => frames.free t.kernelStack t.kernelStackSize
    else k
  k.onFrames fun frames => frames.free task sizeofTask

/-- `TaskManager::CreateAppTask`. -/
def createAppTask (k : AppKernel) (wrapperEntry appEntry : Nat) : Option TaskPtr × AppKernel :=
  match k.createTask wrapperEntry with
  | (none, k) => (none, k)
  | (some task, k) =>
    let k := k.modifyTask task fun t => { t with isApp := true, entryPoint := appEntry }
    let (processCr3, pm) := k.pm.createProcessPageTable
    let k := { k with pm }
    -- The context still has the root that was loaded when the task was created.
    if processCr3 = 0 then (none, k.terminateTask task)
    else
      let k := k.modifyTask task fun t => { t with context := { t.context with cr3 := processCr3 } }
      let (ok, pm) := k.pm.allocateVirtualForProcess processCr3 kUserStackBase kUserStackSize
        (kPresent ||| kWritable ||| kUser)
      let k := { k with pm }
      if !ok then
        let k := { k with pm := k.pm.freeProcessPageTable processCr3 }
        (none, k.terminateTask task)
      else
        (some task, k.modifyTask task fun t =>
          { t with
            userStack := kUserStackBase
            userStackSize := kUserStackSize
            userStackTop := kUserStackTop })

end AppKernel

end Sylphia
