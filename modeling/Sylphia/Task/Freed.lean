import Sylphia.Task.AppTask

/-!
# What the task manager frees

The bitmap does not tell whether a frame was freed twice, or was free before. So beside each
function that gives frames back stands the list of the frames that it hands to `FreeFrame` and to
`Free`, one after another, and a theorem that freeing these is what it does to the bitmap.
-/

namespace Sylphia

namespace MemoryManager

/-- The frames are freed one after another. -/
def freeAll (m : MemoryManager) (freed : List Nat) : MemoryManager :=
  freed.foldl (fun m f => m.freeFrame (f * kFrameSize)) m

/-- The frames that `Free` goes through. -/
def blockFreed (ptr size : Nat) : List Nat := List.range' (ptr / kFrameSize) (numFrames size)

variable (m : MemoryManager)

@[simp] theorem freeAll_nil : m.freeAll [] = m := rfl

theorem freeAll_append (freed freed' : List Nat) :
    m.freeAll (freed ++ freed') = (m.freeAll freed).freeAll freed' := List.foldl_append

/-- `FreeFrame` of any address in a frame. -/
theorem freeAll_singleton (ptr : Nat) : m.freeAll [ptr / kFrameSize] = m.freeFrame ptr := by
  rw [freeAll, List.foldl_cons, List.foldl_nil, freeFrame, freeFrame, kFrameSize,
    Nat.mul_div_cancel _ (by decide)]

theorem freeAll_range' (start count : Nat) : m.freeAll (List.range' start count) =
    { m with bitmap := m.bitmap.setRange start count false } := by
  induction count with
  | zero => rfl
  | succ count ih =>
    rw [List.range'_1_concat, freeAll_append, ih, freeAll, List.foldl_cons, List.foldl_nil,
      freeFrame, kFrameSize, Nat.mul_div_cancel _ (by decide), Bitmap.setRange]

theorem free_eq_freeAll (ptr size : Nat) : m.free ptr size = m.freeAll (blockFreed ptr size) :=
  (m.freeAll_range' _ _).symm

end MemoryManager

open MemoryManager

namespace PageManager

variable (pm : PageManager)

/-- What is freed of one page directory. -/
def directoryFreed (targetPdp index : Nat) : List Nat :=
  let e := pm.entry targetPdp index
  if e.present then [e.getAddress / kFrameSize] else []

/-- What `FreeProcessPageTable` frees. -/
def tableFreed (cr3Value : Nat) : List Nat :=
  if cr3Value = pm.pml4Table then []
  else if cr3Value = 0 then []
  else
    let e := pm.entry cr3Value 0
    let below :=
      if e.present then
        let targetPdp := e.getAddress
        pm.directoryFreed targetPdp 0 ++
          (pm.freeDirectory targetPdp 0).directoryFreed targetPdp 1 ++ [targetPdp / kFrameSize]
      else []
    below ++ [cr3Value / kFrameSize]

theorem frames_freeFrame (ptr : Nat) : (pm.freeFrame ptr).frames = pm.frames.freeFrame ptr := rfl

theorem frames_freeDirectory (targetPdp index : Nat) :
    (pm.freeDirectory targetPdp index).frames =
      pm.frames.freeAll (pm.directoryFreed targetPdp index) := by
  rw [freeDirectory, directoryFreed]
  split
  · exact (freeAll_singleton _ _).symm
  · rfl

theorem frames_freeProcessPageTable (cr3Value : Nat) :
    (pm.freeProcessPageTable cr3Value).frames = pm.frames.freeAll (pm.tableFreed cr3Value) := by
  rw [freeProcessPageTable, tableFreed]
  split
  · rfl
  · split
    · rfl
    · dsimp only
      rw [freeAll_append, freeAll_singleton, frames_freeFrame]
      split
      · rw [freeAll_append, freeAll_append, freeAll_singleton, frames_freeFrame,
          frames_freeDirectory, frames_freeDirectory]
      · rfl

/-- The root itself is freed last. -/
theorem mem_tableFreed {r : Nat} (hr : r ≠ 0) (hk : r * 4096 ≠ pm.pml4Table) :
    r ∈ pm.tableFreed (r * 4096) := by
  rw [tableFreed, if_neg hk, if_neg (by omega), kFrameSize, Nat.mul_div_cancel r (by decide)]
  exact List.mem_append_right _ (List.mem_singleton_self r)

end PageManager

namespace AppKernel

variable (k : AppKernel)

/-- What is freed of the strings of an `argv` array. -/
def stringsFreed : List (Nat × Nat) → List Nat
  | [] => []
  | (ptr, len) :: strings =>
    (if ptr ≠ 0 then blockFreed ptr (len + 1) else []) ++ stringsFreed strings

/-- What is freed of the `argv` array of a task. -/
def argvFreed (t : Task) : List Nat :=
  if t.argv ≠ 0 then
    stringsFreed ((k.argvStrings t.argv).take t.argc) ++ blockFreed t.argv (8 * (t.argc + 1))
  else []

/-- What is freed of the page table of an app task. -/
def rootFreed (t : Task) : List Nat :=
  if t.context.cr3 ≠ 0 ∧ t.context.cr3 ≠ k.pm.getKernelCR3 then k.pm.tableFreed t.context.cr3
  else []

/-- What `TerminateTask` frees. -/
def taskFreed (task : TaskPtr) : List Nat :=
  let k := { k with tasks := k.tasks.terminateTask task }
  let t := k.tasks.task task
  (if t.isApp then k.rootFreed t ++ (k.freeTable t).argvFreed t else []) ++
    (if t.kernelStack ≠ 0 then blockFreed t.kernelStack t.kernelStackSize else []) ++
    blockFreed task sizeofTask

theorem freeStrings_eq_freeAll (frames : MemoryManager) (strings : List (Nat × Nat)) :
    freeStrings frames strings = frames.freeAll (stringsFreed strings) := by
  induction strings generalizing frames with
  | nil => rfl
  | cons x strings ih =>
    rw [freeStrings, stringsFreed, ih, freeAll_append]
    split
    · rw [free_eq_freeAll]
    · rfl

theorem frames_freeArgv (t : Task) :
    (k.freeArgv t).pm.frames = k.pm.frames.freeAll (k.argvFreed t) := by
  rw [freeArgv, argvFreed]
  split
  · rw [freeAll_append, ← freeStrings_eq_freeAll, ← free_eq_freeAll]
    rfl
  · rfl

theorem frames_freeTable (t : Task) :
    (k.freeTable t).pm.frames = k.pm.frames.freeAll (k.rootFreed t) := by
  rw [freeTable, rootFreed]
  split
  · exact k.pm.frames_freeProcessPageTable _
  · rfl

theorem frames_terminateTask (task : TaskPtr) :
    (k.terminateTask task).pm.frames = k.pm.frames.freeAll (k.taskFreed task) := by
  rw [terminateTask, taskFreed]
  dsimp only
  rw [freeAll_append, freeAll_append, ← free_eq_freeAll]
  -- The argument of each step is what the step before it has left.
  have happ (k : AppKernel) (t : Task) :
      (if t.isApp then (k.freeTable t).freeArgv t else k).pm.frames = k.pm.frames.freeAll
        (if t.isApp then k.rootFreed t ++ (k.freeTable t).argvFreed t else []) := by
    split
    · rw [freeAll_append, frames_freeArgv, frames_freeTable]
    · rfl
  have hstack (k : AppKernel) (t : Task) :
      (if t.kernelStack ≠ 0 then
        k.onFrames fun frames => frames.free t.kernelStack t.kernelStackSize else k).pm.frames =
      k.pm.frames.freeAll
        (if t.kernelStack ≠ 0 then blockFreed t.kernelStack t.kernelStackSize else []) := by
    split
    · exact free_eq_freeAll _ _ _
    · rfl
  rw [onFrames]
  dsimp only
  rw [hstack, happ]

/-- The end of a call that fails: the bitmap when the cleaning up begins, and the frames that are
freed then. -/
structure Cleanup where
  frames : MemoryManager
  freed : List Nat

/-- The cleaning up of `CreateTask`. -/
def createTaskCleanup : Cleanup :=
  let (task, frames) := k.pm.frames.allocate sizeofTask
  if task = 0 then ⟨frames, []⟩
  else
    let (stack, frames) := frames.allocate kKernelStackSize
    ⟨frames, if stack = 0 then blockFreed task sizeofTask else []⟩

/-- The cleaning up of `CreateAppTask`; there is none when it returns a task. -/
def createAppTaskCleanup (wrapperEntry appEntry : Nat) : Cleanup :=
  match k.createTask wrapperEntry with
  | (none, _) => k.createTaskCleanup
  | (some task, k) =>
    let k := k.modifyTask task fun t => { t with isApp := true, entryPoint := appEntry }
    let (processCr3, pm) := k.pm.createProcessPageTable
    let k := { k with pm }
    if processCr3 = 0 then ⟨k.pm.frames, k.taskFreed task⟩
    else
      let k := k.modifyTask task fun t => { t with context := { t.context with cr3 := processCr3 } }
      let (ok, pm) := k.pm.allocateVirtualForProcess processCr3 kUserStackBase kUserStackSize
        (kPresent ||| kWritable ||| kUser)
      let k := { k with pm }
      if !ok then
        ⟨k.pm.frames, k.pm.tableFreed processCr3 ++
          { k with pm := k.pm.freeProcessPageTable processCr3 }.taskFreed task⟩
      else ⟨k.pm.frames, []⟩

theorem frames_createTask (entryPoint : Nat) : (k.createTask entryPoint).2.pm.frames =
    k.createTaskCleanup.frames.freeAll k.createTaskCleanup.freed := by
  rw [createTask, createTaskCleanup]
  dsimp only
  split
  · rfl
  · split
    · exact free_eq_freeAll _ _ _
    · rfl

/-- What is freed is all that becomes of the bitmap once the cleaning up begins. -/
theorem frames_createAppTask (wrapperEntry appEntry : Nat) :
    (k.createAppTask wrapperEntry appEntry).2.pm.frames =
      (k.createAppTaskCleanup wrapperEntry appEntry).frames.freeAll
        (k.createAppTaskCleanup wrapperEntry appEntry).freed := by
  have hcreate := k.frames_createTask wrapperEntry
  rw [createAppTask, createAppTaskCleanup]
  rcases hc : k.createTask wrapperEntry with ⟨created, k₁⟩
  rw [hc] at hcreate
  cases created with
  | none => exact hcreate
  | some task =>
    dsimp only
    split
    · exact frames_terminateTask _ _
    · split
      · rw [frames_terminateTask, freeAll_append]
        exact congrArg (freeAll · _) (PageManager.frames_freeProcessPageTable _ _)
      · rfl

end AppKernel

end Sylphia
