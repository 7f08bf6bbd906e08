import Sylphia.Memory.FirstFit
import Sylphia.Paging.Backing
import Sylphia.Task.AppFrames
import Sylphia.Task.Count
import Sylphia.Task.Freed
import Sylphia.Task.ReadyQueue

/-!
# Calls of `CreateAppTask` that fail

`CreateAppTask` leaves the cleaning up to `TerminateTask`, which goes by the root in the task's
context. Until the task has a root of its own this is the root that is loaded, so that a process
that spawns a task can lose its own tables; and once it has one, that root is freed twice.
-/

namespace Sylphia

open MemoryManager

/-- There is a frame for a control block, and in a row behind it frames for a kernel stack. -/
def FitsTask (m : MemoryManager) : Prop :=
  ∃ t i, IsLeast {f | m.bitmap.get f = false} t ∧ t < i ∧ m.Fits (numFrames kKernelStackSize) i

/-- The states in which `CreateAppTask` is called, with the roots of page tables in use and the
tasks that there are: the kernel's root or that of a process is loaded, and all control blocks
are in frames that are marked used. -/
structure CreationState (k : AppKernel) (roots : List Nat) (live : List TaskPtr) : Prop where
  tables : TablesReached k.pm roots
  loaded : k.pm.cr3 ∈ roots
  queue : ∃ l, ReadyQueue k.tasks live l
  blocks : ∀ p ∈ live, k.pm.frames.bitmap.get (p / kFrameSize) = true

/-- The bitmap, all page tables in use, the ready queue and the task count are as before, and the
cleaning up has freed frames only that were taken by the call, each of them once. -/
structure LeavesNoTrace (k : AppKernel) (roots : List Nat) (live : List TaskPtr)
    (cleanup : AppKernel.Cleanup) (k' : AppKernel) : Prop where
  bitmap : k'.pm.frames.bitmap = k.pm.frames.bitmap
  tables : ∀ cr3 ∈ roots, ∀ n t, TableAt k.pm.memory (cr3 / 4096) n t →
    k'.pm.memory t = k.pm.memory t
  head : k'.tasks.readyQueueHead = k.tasks.readyQueueHead
  tail : k'.tasks.readyQueueTail = k.tasks.readyQueueTail
  queued : ∀ p ∈ live, k'.tasks.task p = k.tasks.task p
  count : k'.tasks.getTaskCount = k.tasks.getTaskCount
  own : ∀ f ∈ cleanup.freed, k.pm.frames.bitmap.get f = false ∧
    cleanup.frames.bitmap.get f = true
  once : cleanup.freed.Nodup

namespace MemoryManager

variable {m m' : MemoryManager} {freed : List Nat}

theorem bitmapSize_freeAll (m : MemoryManager) (freed : List Nat) :
    (m.freeAll freed).bitmap.bitmapSize = m.bitmap.bitmapSize := by
  induction freed generalizing m with
  | nil => rfl
  | cons f freed ih =>
    rw [show m.freeAll (f :: freed) = (m.freeFrame (f * kFrameSize)).freeAll freed from rfl, ih]
    exact Bitmap.bitmapSize_set _ _ _

theorem get_freeAll (m : MemoryManager) (freed : List Nat) (f : Nat) :
    (m.freeAll freed).bitmap.get f =
      (m.bitmap.get f && !decide (f ∈ freed ∧ f / 8 < m.bitmap.bitmapSize)) := by
  induction freed generalizing m with
  | nil => simp
  | cons g freed ih =>
    rw [show m.freeAll (g :: freed) = (m.freeFrame (g * kFrameSize)).freeAll freed from rfl, ih,
      freeFrame, kFrameSize, Nat.mul_div_cancel g (by decide)]
    dsimp only
    rw [Bitmap.get_set, Bitmap.bitmapSize_set]
    by_cases hf : f = g
    · subst hf
      by_cases hs : f / 8 < m.bitmap.bitmapSize <;> simp [hs]
    · simp [hf]

/-- When exactly the frames that were taken are freed, the bitmap is as before. -/
theorem Takes.bitmap_freeAll (h : m.Takes freed.toFinset m') :
    (m'.freeAll freed).bitmap = m.bitmap := by
  refine Bitmap.ext_get ((bitmapSize_freeAll _ _).trans h.size) fun f => ?_
  rw [get_freeAll, h.size]
  by_cases hf : f ∈ freed
  · have hfree := Bitmap.mem_freeSet.mp (h.free (List.mem_toFinset.mpr hf))
    rw [hfree, decide_eq_true ⟨hf, Bitmap.lt_size_of_get hfree⟩]
    simp
  · rw [decide_eq_false fun hc => hf hc.1, Bool.not_false, Bool.and_true]
    cases hm : m.bitmap.get f with
    | true => exact h.used hm
    | false =>
      rw [← Bitmap.mem_freeSet, h.left, Finset.mem_sdiff, List.mem_toFinset]
      exact ⟨Bitmap.mem_freeSet.mpr hm, hf⟩

theorem blockFreed_toFinset (ptr size : Nat) :
    (blockFreed ptr size).toFinset = blockFrames ptr size := by
  ext f
  rw [List.mem_toFinset, blockFreed, blockFrames, List.mem_range'_1, Finset.mem_Ico]

theorem nodup_blockFreed (ptr size : Nat) : (blockFreed ptr size).Nodup := List.nodup_range'

end MemoryManager

section CreateTask

variable {m : MemoryManager} {t : Nat}

/-- The frames of a stack are free after the lowest free frame was taken exactly if they are
behind it. -/
theorem fits_set_iff (ht : IsLeast {f | m.bitmap.get f = false} t) {n i : Nat} (hn : 0 < n) :
    MemoryManager.Fits { m with bitmap := m.bitmap.set t true } n i ↔ t < i ∧ m.Fits n i := by
  have hget (f : Nat) : (m.bitmap.set t true).get f = false ↔ f ≠ t ∧ m.bitmap.get f = false := by
    rw [Bitmap.get_set]
    by_cases hf : f = t
    · simp [hf, Bitmap.lt_size_of_get ht.1]
    · simp [hf]
  constructor
  · intro h
    have hfirst := h i le_rfl (by omega)
    obtain ⟨hne, hfree⟩ := (hget i).mp hfirst.2
    have hle := ht.2 hfree
    exact ⟨by omega, fun f hlo hhi => ⟨(h f hlo hhi).1, ((hget f).mp (h f hlo hhi).2).2⟩⟩
  · rintro ⟨hti, h⟩ f hlo hhi
    exact ⟨(h f hlo hhi).1, (hget f).mpr ⟨by omega, (h f hlo hhi).2⟩⟩

/-- A control block takes the lowest free frame, and a stack then has room behind it or not at
all. -/
theorem allocate_block (m : MemoryManager) :
    (m.bitmap.freeSet = ∅ ∧ m.allocate sizeofTask = (0, m)) ∨
      ∃ t m', m.allocate sizeofTask = (t * kFrameSize, m') ∧ m.bitmap.get t = false ∧
        m.Takes (blockFrames (t * kFrameSize) sizeofTask) m' ∧
        ((∃ i, m'.Fits (numFrames kKernelStackSize) i) ↔ FitsTask m) ∧
        ¬m'.Fits (numFrames kKernelStackSize) 0 := by
  have hframe : m.allocate sizeofTask = m.allocateFrame := by
    rw [allocate, if_neg (by decide), if_pos (by decide)]
  cases hf : m.bitmap.findFreeFrame with
  | none =>
    refine Or.inl ⟨Bitmap.findFreeFrame_eq_none_iff.mp hf, ?_⟩
    rw [hframe, allocateFrame, hf]
  | some t =>
    obtain ⟨hfree, hlower⟩ := Bitmap.findFreeFrame_eq_some hf
    have ht : IsLeast {f | m.bitmap.get f = false} t := by
      refine ⟨hfree, fun f hf => ?_⟩
      by_contra hlt
      rw [Set.mem_ofPred_eq, hlower f (by omega)] at hf
      cases hf
    have he : m.allocate sizeofTask =
        (t * kFrameSize, { m with bitmap := m.bitmap.set t true }) := by
      rw [hframe, allocateFrame, hf]
    refine Or.inr ⟨t, _, he, hfree, ?_, ⟨?_, ?_⟩, fun hc => ?_⟩
    · rcases m.allocate_takes sizeofTask with he' | ⟨i, m', htake, he'⟩
      · have hsame := congrArg (fun x => x.2.bitmap.get t) (he.symm.trans he')
        simp [Bitmap.get_set, Bitmap.lt_size_of_get hfree, hfree] at hsame
      · rw [he, Prod.mk.injEq] at he'
        rw [he'.1, he'.2]
        exact htake
    · rintro ⟨i, hi⟩
      exact ⟨t, i, ht, (fits_set_iff ht (by decide)).mp hi⟩
    · rintro ⟨t', i, ht', hi⟩
      exact ⟨i, (fits_set_iff ht (by decide)).mpr (ht.unique ht' ▸ hi)⟩
    · exact absurd ((fits_set_iff ht (by decide)).mp hc).1 (Nat.not_lt_zero t)

/-- A kernel stack takes frames in a row wherever there are some. -/
theorem allocate_stack (m : MemoryManager) :
    m.FirstFit (numFrames kKernelStackSize) (m.allocate kKernelStackSize) := by
  have hrun : m.allocate kKernelStackSize = m.allocateRun (numFrames kKernelStackSize) := by
    rw [allocate, if_neg (by decide), if_neg (by decide)]
    rfl
  rw [hrun]
  exact allocateRun_firstFit (by decide)

variable {k : AppKernel}

/-- `CreateTask` fails exactly when there is no room, and then it gives back what it has taken. -/
theorem createTask_cases (hpos : ∀ f, k.pm.frames.bitmap.get f = false → 0 < f)
    (entryPoint : Nat) :
    (¬FitsTask k.pm.frames ∧
      (∃ frames, k.createTask entryPoint = (none, k.onFrames fun _ => frames)) ∧
      k.pm.frames.Takes k.createTaskCleanup.freed.toFinset k.createTaskCleanup.frames ∧
        k.createTaskCleanup.freed.Nodup) ∨
    (FitsTask k.pm.frames ∧ ∃ p k', k.createTask entryPoint = (some p, k')) := by
  rw [AppKernel.createTask, AppKernel.createTaskCleanup]
  rcases allocate_block k.pm.frames with ⟨hempty, he⟩ | ⟨t, m', he, hfree, htake, hroom, hzero⟩
  · rw [he]
    refine Or.inl ⟨?_, ⟨_, rfl⟩, Takes.refl _, List.nodup_nil⟩
    rintro ⟨t, i, ht, -⟩
    have hmem := Bitmap.mem_freeSet.mpr ht.1
    rw [hempty] at hmem
    exact Finset.notMem_empty t hmem
  have hblock : ¬t * kFrameSize = 0 := by
    have := hpos t hfree
    rw [kFrameSize]
    omega
  have hstack := allocate_stack m'
  rw [he]
  dsimp only
  rw [if_neg hblock, if_neg hblock]
  by_cases hfits : FitsTask k.pm.frames
  · obtain ⟨i, hi⟩ := hroom.mpr hfits
    have hne : ¬(m'.allocate kKernelStackSize).1 = 0 := by
      intro hnull
      rcases hstack.null.mp hnull with hnone | hleast
      · exact hnone i hi
      · exact hzero hleast.1
    rw [if_neg hne, TaskManager.createTask, if_neg hblock, if_neg hne]
    exact Or.inr ⟨hfits, _, _, rfl⟩
  · rw [hstack.none fun i hi => hfits (hroom.mp ⟨i, hi⟩)]
    dsimp only
    rw [if_pos rfl, if_pos rfl]
    refine Or.inl ⟨hfits, ⟨_, rfl⟩, ?_, nodup_blockFreed _ _⟩
    rw [blockFreed_toFinset]
    exact htake

end CreateTask

theorem createTask_ends (k : AppKernel) (entryPoint : Nat) :
    (k.createTask entryPoint).2.tasks.readyQueueHead = k.tasks.readyQueueHead ∧
      (k.createTask entryPoint).2.tasks.readyQueueTail = k.tasks.readyQueueTail := by
  rw [AppKernel.createTask]
  dsimp only
  split
  · exact ⟨rfl, rfl⟩
  · next htask =>
    split
    · exact ⟨rfl, rfl⟩
    · next hstack =>
      rw [TaskManager.createTask, if_neg htask, if_neg hstack]
      exact ⟨rfl, rfl⟩

/-- The queue and all other tasks stay as they are. -/
theorem TaskManager.terminateTask_unqueued {tm : TaskManager} {p : TaskPtr}
    (hnext : tm.next p = none) (hprev : tm.prev p = none) (hhead : some p ≠ tm.readyQueueHead)
    (htail : some p ≠ tm.readyQueueTail) :
    (tm.terminateTask p).readyQueueHead = tm.readyQueueHead ∧
      (tm.terminateTask p).readyQueueTail = tm.readyQueueTail ∧
      ∀ q, q ≠ p → (tm.terminateTask p).task q = tm.task q := by
  have hends : tm.detachEnds p = tm := by rw [detachEnds, if_neg hhead, if_neg htail]
  have hremove : tm.removeFromReadyQueue p = (tm.setNext p none).setPrev p none := by
    rw [removeFromReadyQueue, hends, bridgePrev, hprev]
    dsimp only
    rw [bridgeNext, hnext]
  rw [terminateTask, hremove]
  refine ⟨rfl, rfl, fun q hq => ?_⟩
  simp [setState, setPrev, setNext, hq]

namespace AppKernel

variable {k : AppKernel} {p : TaskPtr}

/-- The root in the context of an app task is freed. -/
theorem mem_taskFreed {r : Nat} (happ : (k.tasks.task p).isApp = true)
    (hcr3 : (k.tasks.task p).context.cr3 = r * 4096) (hr : r ≠ 0)
    (hk : r * 4096 ≠ k.pm.pml4Table) : r ∈ k.taskFreed p := by
  have hfields := k.tasks.resources_terminateTask p p
  simp only [Task.resources, Prod.mk.injEq] at hfields
  have hroot : r * 4096 ≠ 0 ∧ r * 4096 ≠ k.pm.getKernelCR3 := ⟨by omega, hk⟩
  rw [taskFreed]
  dsimp only
  rw [hfields.2.1, happ, if_pos rfl, rootFreed, hfields.1, hcr3]
  dsimp only
  rw [if_pos hroot]
  exact List.mem_append_left _ (List.mem_append_left _ (List.mem_append_left _
    (k.pm.mem_tableFreed hr hk)))

/-- With the kernel's root in its context and no arguments, an app task gives back its kernel stack
and its control block. -/
theorem taskFreed_kernel (hcr3 : (k.tasks.task p).context.cr3 = k.pm.getKernelCR3)
    (hargv : (k.tasks.task p).argv = 0) (hstack : (k.tasks.task p).kernelStack ≠ 0) :
    k.taskFreed p =
      blockFreed (k.tasks.task p).kernelStack (k.tasks.task p).kernelStackSize ++
        blockFreed p sizeofTask := by
  have hfields := k.tasks.resources_terminateTask p p
  simp only [Task.resources, Prod.mk.injEq] at hfields
  obtain ⟨hroot, -, hkernelStack, hsize, -, hstrings⟩ := hfields
  have hkernel : ¬(k.pm.getKernelCR3 ≠ 0 ∧ k.pm.getKernelCR3 ≠ k.pm.getKernelCR3) :=
    fun hc => hc.2 rfl
  rw [taskFreed]
  dsimp only
  rw [hkernelStack, hsize, if_pos hstack, rootFreed, hroot, hcr3, argvFreed, hstrings, hargv]
  dsimp only
  rw [if_neg hkernel, if_neg (not_not.mpr rfl), List.nil_append, ite_self, List.nil_append]

/-- And no page table changes. -/
theorem memory_terminateTask (hcr3 : (k.tasks.task p).context.cr3 = k.pm.getKernelCR3) :
    (k.terminateTask p).pm.memory = k.pm.memory := by
  have hfields := k.tasks.resources_terminateTask p p
  simp only [Task.resources, Prod.mk.injEq] at hfields
  have hargv (k : AppKernel) (t : Task) : (k.freeArgv t).pm.memory = k.pm.memory := by
    rw [freeArgv]
    split <;> rfl
  have hstack (k : AppKernel) (t : Task) : (if t.kernelStack ≠ 0 then
      k.onFrames fun frames => frames.free t.kernelStack t.kernelStackSize else k).pm.memory =
        k.pm.memory := by
    split <;> rfl
  rw [terminateTask]
  refine (hstack _ _).trans ?_
  split
  · rw [hargv, freeTable, hfields.1, hcr3, if_neg (fun hc => hc.2 rfl)]
  · rfl

end AppKernel

section CreateAppTask

variable {k k₁ : AppKernel} {roots : List Nat} {live : List TaskPtr} {p : TaskPtr}
  {wrapperEntry appEntry : Nat}

namespace CreationState

theorem free_pos (h : CreationState k roots live) {f : Nat}
    (hf : k.pm.frames.bitmap.get f = false) : 0 < f := by
  obtain ⟨label, hr⟩ := h.tables.rooted
  exact (hr.shaped.allocated.free f hf).1

variable {entryPoint stack : Nat}

/-- The frames of a new task are no tables in use. -/
theorem createTask (h : CreationState k roots live)
    (hc : AppKernel.CreatesTask k entryPoint p stack k₁) : TablesReached k₁.pm roots := by
  obtain ⟨label, hr⟩ := h.tables.rooted
  refine h.tables.meanwhile ⟨?_, hr.kernel, fun _ => id, fun cr3 hcr3 n t ht => ⟨?_, ?_⟩,
    fun f hf => ?_⟩
  · rw [hc.pm]
  · exact hc.takes.used (hr.used hcr3 ht)
  · rw [hc.pm]
  · refine hr.shaped.allocated.free f (Bitmap.mem_freeSet.mp ?_)
    have hmem := Bitmap.mem_freeSet.mpr hf
    rw [hc.takes.left] at hmem
    exact (Finset.mem_sdiff.mp hmem).1

/-- A new task has a control block of its own. -/
theorem ne_of_mem (h : CreationState k roots live)
    (hc : AppKernel.CreatesTask k entryPoint p stack k₁) {q : TaskPtr} (hq : q ∈ live) :
    q ≠ p := by
  rintro rfl
  have hmem : q / kFrameSize ∈ blockFrames q sizeofTask := mem_blockFrames (by decide)
  have hfree := Bitmap.mem_freeSet.mp (hc.takes.free (Finset.mem_union_left _ hmem))
  rw [h.blocks q hq] at hfree
  cases hfree

/-- And so it is at neither end of the queue. -/
theorem ends_ne (h : CreationState k roots live)
    (hc : AppKernel.CreatesTask k entryPoint p stack k₁) :
    some p ≠ k.tasks.readyQueueHead ∧ some p ≠ k.tasks.readyQueueTail := by
  obtain ⟨l, hl⟩ := h.queue
  have hp (hmem : p ∈ l) : False := h.ne_of_mem hc (hl.queued p hmem).1 rfl
  rw [hl.forward.start_eq, hl.backward.start_eq, List.head?_reverse]
  exact ⟨fun he => hp (List.mem_of_head? he.symm), fun he => hp (List.mem_of_getLast? he.symm)⟩

end CreationState

/-- When it has freed exactly what it has taken, only the tables and the tasks are left to look
at. -/
theorem leavesNoTrace_of_takes
    (hnone : (k.createAppTask wrapperEntry appEntry).1 = none)
    (htakes : k.pm.frames.Takes (k.createAppTaskCleanup wrapperEntry appEntry).freed.toFinset
      (k.createAppTaskCleanup wrapperEntry appEntry).frames)
    (honce : (k.createAppTaskCleanup wrapperEntry appEntry).freed.Nodup)
    (hmemory : (k.createAppTask wrapperEntry appEntry).2.pm.memory = k.pm.memory)
    (hhead : (k.createAppTask wrapperEntry appEntry).2.tasks.readyQueueHead =
      k.tasks.readyQueueHead)
    (htail : (k.createAppTask wrapperEntry appEntry).2.tasks.readyQueueTail =
      k.tasks.readyQueueTail)
    (hlive : ∀ q ∈ live,
      (k.createAppTask wrapperEntry appEntry).2.tasks.task q = k.tasks.task q) :
    LeavesNoTrace k roots live (k.createAppTaskCleanup wrapperEntry appEntry)
      (k.createAppTask wrapperEntry appEntry).2 where
  bitmap := by
    rw [k.frames_createAppTask]
    exact htakes.bitmap_freeAll
  tables := fun _ _ _ t _ => congrFun hmemory t
  head := hhead
  tail := htail
  queued := hlive
  count := by
    have hcount := k.taskCount_createAppTask wrapperEntry appEntry
    rw [hnone] at hcount
    exact hcount
  own := fun f hf => by
    have hmem := List.mem_toFinset.mpr hf
    exact ⟨Bitmap.mem_freeSet.mp (htakes.free hmem), htakes.taken hmem⟩
  once := honce

/-- Without room for a task the call leaves no trace. -/
theorem leavesNoTrace_of_not_fits (h : CreationState k roots live) (hfits : ¬FitsTask k.pm.frames) :
    LeavesNoTrace k roots live (k.createAppTaskCleanup wrapperEntry appEntry)
      (k.createAppTask wrapperEntry appEntry).2 := by
  rcases createTask_cases (fun f => h.free_pos) wrapperEntry with
    ⟨-, ⟨frames, he⟩, htakes, honce⟩ | ⟨hroom, -⟩
  · have hcall : k.createAppTask wrapperEntry appEntry = (none, k.onFrames fun _ => frames) := by
      rw [AppKernel.createAppTask, he]
    have hclean : k.createAppTaskCleanup wrapperEntry appEntry = k.createTaskCleanup := by
      rw [AppKernel.createAppTaskCleanup, he]
    refine leavesNoTrace_of_takes (by rw [hcall]) (by rw [hclean]; exact htakes)
      (by rw [hclean]; exact honce) ?_ ?_ ?_ fun q _ => ?_
    all_goals
      rw [hcall]
      rfl
  · exact absurd hroom hfits

/-- The blocks of a new task are apart, and nothing else was taken. -/
theorem AppKernel.CreatesTask.freed {entryPoint stack : Nat}
    (hc : AppKernel.CreatesTask k entryPoint p stack k₁) :
    k.pm.frames.Takes (blockFreed stack kKernelStackSize ++ blockFreed p sizeofTask).toFinset
        k₁.pm.frames ∧
      (blockFreed stack kKernelStackSize ++ blockFreed p sizeofTask).Nodup := by
  have hset : (blockFreed stack kKernelStackSize ++ blockFreed p sizeofTask).toFinset =
      blockFrames p sizeofTask ∪ blockFrames stack kKernelStackSize := by
    rw [List.toFinset_append, blockFreed_toFinset, blockFreed_toFinset, Finset.union_comm]
  refine ⟨hset.symm ▸ hc.takes, ?_⟩
  have hcard := congrArg Finset.card hset
  rw [hc.card, List.card_toFinset] at hcard
  have hlength : (blockFreed stack kKernelStackSize ++ blockFreed p sizeofTask).length = 5 := by
    rw [List.length_append, blockFreed, blockFreed, List.length_range', List.length_range']
    rfl
  exact List.dedup_eq_self.mp ((List.dedup_sublist _).eq_of_length (hcard.trans hlength.symm))

/-- The call ends with `TerminateTask`; nothing but the mark of an app has been added to the new
task. -/
theorem AppKernel.createAppTask_of_null {pm' : PageManager}
    (hc : k.createTask wrapperEntry = (some p, k₁))
    (he : k₁.pm.createProcessPageTable = (0, pm')) (appEntry : Nat) :
    ∃ k₂ : AppKernel, k.createAppTask wrapperEntry appEntry = (none, k₂.terminateTask p) ∧
      k.createAppTaskCleanup wrapperEntry appEntry = ⟨pm'.frames, k₂.taskFreed p⟩ ∧
      k₂.pm = pm' ∧ k₂.tasks = { k₁.tasks with
        task := Function.update k₁.tasks.task p
          { k₁.tasks.task p with isApp := true, entryPoint := appEntry } } := by
  rw [createAppTask, createAppTaskCleanup, hc]
  dsimp only [modifyTask]
  rw [he, if_pos rfl, if_pos rfl]
  exact ⟨_, rfl, rfl, rfl, rfl⟩

section NullRoot

variable {k₂ : AppKernel} {stack : Nat} {t : Task}

/-- What is known of the task that `TerminateTask` is called for. -/
theorem AppKernel.CreatesTask.task_eq
    (hnew : AppKernel.CreatesTask k wrapperEntry p stack k₁)
    (htasks : k₂.tasks = { k₁.tasks with
      task := Function.update k₁.tasks.task p
        { k₁.tasks.task p with isApp := true, entryPoint := appEntry } }) :
    k₂.tasks.task p = { TaskManager.newTask k.tasks.nextTaskId stack wrapperEntry k.pm.cr3 with
      isApp := true, entryPoint := appEntry } := by
  rw [htasks, hnew.task]
  simp only [Function.update_self]

/-- The root of a process that is loaded is freed with the task. -/
theorem CreationState.mem_taskFreed (h : CreationState k roots live)
    (htask : k₂.tasks.task p =
      { TaskManager.newTask k.tasks.nextTaskId stack wrapperEntry k.pm.cr3 with
        isApp := true, entryPoint := appEntry })
    (hpml4 : k₂.pm.pml4Table = k.pm.pml4Table) (hne : k.pm.cr3 ≠ k.pm.getKernelCR3) :
    k.pm.cr3 / 4096 ∈ k₂.taskFreed p ∧ k.pm.frames.bitmap.get (k.pm.cr3 / 4096) = true := by
  obtain ⟨label, hr⟩ := h.tables.rooted
  obtain ⟨haligned, hlabel⟩ := hr.roots _ h.loaded
  have hpos := hr.shaped.root_pos hlabel
  refine ⟨?_, hr.used h.loaded .root⟩
  refine AppKernel.mem_taskFreed (by rw [htask]) (by rw [htask]; exact haligned) (by omega) ?_
  rw [← haligned, hpml4]
  exact hne

/-- With the kernel's root loaded, `TerminateTask` undoes what `CreateTask` has done. -/
theorem leavesNoTrace_of_kernel (h : CreationState k roots live)
    (hc : k.createTask wrapperEntry = (some p, k₁))
    (he : k₁.pm.createProcessPageTable = (0, { k₁.pm with outOfFrames := true }))
    (hkernel : k.pm.cr3 = k.pm.getKernelCR3) :
    LeavesNoTrace k roots live (k.createAppTaskCleanup wrapperEntry appEntry)
      (k.createAppTask wrapperEntry appEntry).2 := by
  obtain ⟨stack, hnew⟩ := AppKernel.createTask_some hc
  obtain ⟨k₂, hcall, hclean, hpm, htasks⟩ :=
    AppKernel.createAppTask_of_null hc he appEntry
  have htask := hnew.task_eq htasks
  have hcr3 : (k₂.tasks.task p).context.cr3 = k₂.pm.getKernelCR3 := by
    rw [htask, PageManager.getKernelCR3, hpm, hnew.pm]
    exact hkernel
  have hstack : (k₂.tasks.task p).kernelStack ≠ 0 := by
    rw [htask]
    exact ne_zero_of_blockFrames (by decide) (Finset.subset_union_right.trans hnew.takes.free)
      fun f hf => h.free_pos (Bitmap.mem_freeSet.mp hf)
  have hfreed : k₂.taskFreed p = blockFreed stack kKernelStackSize ++ blockFreed p sizeofTask := by
    refine (AppKernel.taskFreed_kernel hcr3 (by rw [htask]; rfl) hstack).trans ?_
    rw [htask]
    rfl
  obtain ⟨hnext, hprev⟩ : k₂.tasks.next p = none ∧ k₂.tasks.prev p = none := by
    rw [TaskManager.next, TaskManager.prev, htask]
    exact ⟨rfl, rfl⟩
  obtain ⟨hhead, htail⟩ := createTask_ends k wrapperEntry
  rw [hc] at hhead htail
  have hk₂head : k₂.tasks.readyQueueHead = k.tasks.readyQueueHead := by
    rw [htasks, ← hhead]
  have hk₂tail : k₂.tasks.readyQueueTail = k.tasks.readyQueueTail := by
    rw [htasks, ← htail]
  have hends := h.ends_ne hnew
  rw [← hk₂head, ← hk₂tail] at hends
  obtain ⟨hhead', htail', hothers⟩ :=
    TaskManager.terminateTask_unqueued hnext hprev hends.1 hends.2
  refine leavesNoTrace_of_takes (by rw [hcall]) (by rw [hclean, hfreed]; exact hnew.freed.1)
    (by rw [hclean, hfreed]; exact hnew.freed.2) ?_ ?_ ?_ fun q hq => ?_
  · rw [hcall, AppKernel.memory_terminateTask hcr3, hpm, hnew.pm]
  · rw [hcall, AppKernel.tasks_terminateTask, hhead', hk₂head]
  · rw [hcall, AppKernel.tasks_terminateTask, htail', hk₂tail]
  · have hqp := h.ne_of_mem hnew hq
    rw [hcall, AppKernel.tasks_terminateTask, hothers q hqp, htasks]
    simp [hnew.task, hqp]

/-- Without a frame for a root the call frees the root that is loaded, unless it is the
kernel's. -/
theorem createAppTask_null (h : CreationState k roots live)
    (hc : k.createTask wrapperEntry = (some p, k₁))
    (hnull : k₁.pm.createProcessPageTable.1 = 0) :
    k.pm.frames.bitmap.freeFrames = 5 ∧ (k.createAppTask wrapperEntry appEntry).1 = none ∧
      (LeavesNoTrace k roots live (k.createAppTaskCleanup wrapperEntry appEntry)
        (k.createAppTask wrapperEntry appEntry).2 ↔ k.pm.cr3 = k.pm.getKernelCR3) := by
  obtain ⟨stack, hnew⟩ := AppKernel.createTask_some hc
  obtain ⟨label, hr⟩ := (h.createTask hnew).rooted
  rcases hr.tablesUsed.createProcessPageTable with ⟨hempty, he⟩ | ⟨r, taken, pm', he, hroot⟩
  · have hcount := hnew.takes.freeFrames
    rw [hnew.card, Bitmap.freeFrames, hempty, Finset.card_empty] at hcount
    obtain ⟨k₂, hcall, hclean, hpm, htasks⟩ :=
      AppKernel.createAppTask_of_null hc he appEntry
    refine ⟨by omega, by rw [hcall], fun hleaves => ?_, leavesNoTrace_of_kernel h hc he⟩
    by_contra hne
    obtain ⟨hmem, hused⟩ := h.mem_taskFreed (hnew.task_eq htasks) (by rw [hpm, hnew.pm]) hne
    have hfree := (hleaves.own _ (by rw [hclean]; exact hmem)).1
    rw [hused] at hfree
    cases hfree
  · have hpos := (hr.tablesUsed.free r (hroot.gains.takes.free hroot.root)).1
    rw [he] at hnull
    dsimp only at hnull
    omega

end NullRoot

section Root

variable {pm pm' pm₂ : PageManager} {stack r : Nat} {taken : Finset Nat}

/-- Under a root in use the call gets its frames exactly if there are enough for the pages and for
the tables that all but the last of them lack. -/
theorem allocateVirtualForProcess_true_iff (h : TablesReached pm roots)
    {cr3 v size flags : Nat} (hcr3 : cr3 ∈ roots) (hv : v % 4096 = 0) :
    (pm.allocateVirtualForProcess cr3 v size flags).1 = true ↔ PageManager.numPages size = 0 ∨
      PageManager.numPages size +
        (missingBetween pm.memory (cr3 / 4096) v 0 (PageManager.numPages size - 1)).card ≤
          pm.frames.bitmap.freeFrames := by
  obtain ⟨y, z, he⟩ := pm.allocateVirtualForProcess_eq cr3 v size flags
  rw [he]
  exact allocateVirtual_true_iff ⟨pm, roots, h, cr3, hcr3, y, rfl⟩ hv

/-- The frames reach for the user stack when they have reached for all copies before, and under
the new root the stack lacks the tables that it lacks under the kernel's. -/
theorem CreationState.userStack_true_iff (h : CreationState k roots live)
    (hnew : AppKernel.CreatesTask k wrapperEntry p stack k₁)
    (he : k₁.pm.createProcessPageTable = (r * 4096, pm')) (hr0 : r ≠ 0)
    (hroot : CreatesRoot k₁.pm r taken pm') :
    (pm'.allocateVirtualForProcess (r * 4096) kUserStackBase kUserStackSize
      (kPresent ||| kWritable ||| kUser)).1 = true ↔
      5 + tableCount k.pm.memory (k.pm.pml4Table / 4096) + 16 +
        (missingTables k.pm kUserStackBase 15).card ≤ k.pm.frames.bitmap.freeFrames := by
  have hreached := h.createTask hnew
  obtain ⟨label, hr⟩ := hreached.rooted
  have hreached' : TablesReached pm' (r * 4096 :: roots) := by
    have hnext := hreached.createProcessPageTable
    rwa [he, if_neg (by dsimp only; omega)] at hnext
  have hmissing : missingBetween pm'.memory r kUserStackBase 0 15 =
      missingTables k.pm kUserStackBase 15 := by
    rw [missingTables, missingBetween_congr fun q hq j hj =>
      hr.meets_createProcessPageTable he hr0 hq hj, hnew.pm]
  have htables : tableCount k₁.pm.memory (k₁.pm.pml4Table / 4096) =
      tableCount k.pm.memory (k.pm.pml4Table / 4096) := by rw [hnew.pm]
  have hcount := hnew.takes.freeFrames
  rw [hnew.card] at hcount
  have hleft := hroot.gains.takes.freeFrames
  have hsome : 0 < k₁.pm.frames.bitmap.freeFrames :=
    Finset.card_pos.mpr ⟨r, hroot.gains.takes.free hroot.root⟩
  rw [allocateVirtualForProcess_true_iff hreached' (List.mem_cons_self ..) (by decide),
    show PageManager.numPages kUserStackSize = 16 by decide, Nat.mul_div_cancel r (by decide),
    hmissing]
  rcases hroot.own with ⟨henough, -, hcopies⟩ | ⟨hfew, hempty, -⟩
  · omega
  · have hzero : pm'.frames.bitmap.freeFrames = 0 := by
      rw [Bitmap.freeFrames, hempty, Finset.card_empty]
    omega

/-- With a root in hand the call stands or falls with the user stack. -/
theorem AppKernel.createAppTask_of_root {processCr3 : Nat} {ok : Bool}
    (hc : k.createTask wrapperEntry = (some p, k₁))
    (he : k₁.pm.createProcessPageTable = (processCr3, pm')) (hroot : processCr3 ≠ 0)
    (hy : pm'.allocateVirtualForProcess processCr3 kUserStackBase kUserStackSize
      (kPresent ||| kWritable ||| kUser) = (ok, pm₂)) (appEntry : Nat) :
    (k.createAppTask wrapperEntry appEntry).1 = if ok then some p else none := by
  rw [createAppTask, hc]
  dsimp only [modifyTask]
  rw [he]
  dsimp only
  rw [if_neg hroot, hy]
  cases ok <;> rfl

/-- The root is freed by itself, and again with the task, which has it in its context. -/
theorem AppKernel.cleanup_of_root {processCr3 : Nat}
    (hc : k.createTask wrapperEntry = (some p, k₁))
    (he : k₁.pm.createProcessPageTable = (processCr3, pm')) (hroot : processCr3 ≠ 0)
    (hy : pm'.allocateVirtualForProcess processCr3 kUserStackBase kUserStackSize
      (kPresent ||| kWritable ||| kUser) = (false, pm₂)) (appEntry : Nat) :
    ∃ k₂ : AppKernel, (k.createAppTaskCleanup wrapperEntry appEntry).freed =
        pm₂.tableFreed processCr3 ++ k₂.taskFreed p ∧
      k₂.pm = pm₂.freeProcessPageTable processCr3 ∧ (k₂.tasks.task p).isApp = true ∧
      (k₂.tasks.task p).context.cr3 = processCr3 := by
  rw [createAppTaskCleanup, hc]
  dsimp only [modifyTask]
  rw [he]
  dsimp only
  rw [if_neg hroot, hy]
  exact ⟨_, rfl, rfl, by simp, by simp⟩

/-- A new root is not the kernel's. -/
theorem CreatesRoot.root_ne (h : CreatesRoot pm r taken pm') (hk : TablesUsed pm) :
    r * 4096 ≠ pm.pml4Table := by
  intro hc
  have hused := hk.used 3 _ TableAt.root
  rw [← hc, Nat.mul_div_cancel r (by decide),
    Bitmap.mem_freeSet.mp (h.gains.takes.free h.root)] at hused
  cases hused

theorem pml4Table_allocateVirtualForProcess (pm : PageManager) (cr3 v size flags : Nat) :
    (pm.allocateVirtualForProcess cr3 v size flags).2.pml4Table = pm.pml4Table := by
  obtain ⟨y, z, he⟩ := pm.allocateVirtualForProcess_eq cr3 v size flags
  rw [he]

/-- With a frame for a root the call fails exactly if the frames do not suffice for all copies and
for the user stack, and then it frees the root twice. -/
theorem createAppTask_root (h : CreationState k roots live)
    (hc : k.createTask wrapperEntry = (some p, k₁))
    (hne : k₁.pm.createProcessPageTable.1 ≠ 0) :
    k.pm.frames.bitmap.freeFrames ≠ 5 ∧
      ((k.createAppTask wrapperEntry appEntry).1 = none ↔ k.pm.frames.bitmap.freeFrames <
        5 + tableCount k.pm.memory (k.pm.pml4Table / 4096) + 16 +
          (missingTables k.pm kUserStackBase 15).card) ∧
      ((k.createAppTask wrapperEntry appEntry).1 = none →
        ¬(k.createAppTaskCleanup wrapperEntry appEntry).freed.Nodup) := by
  obtain ⟨stack, hnew⟩ := AppKernel.createTask_some hc
  obtain ⟨label, hr⟩ := (h.createTask hnew).rooted
  rcases hr.tablesUsed.createProcessPageTable with ⟨-, he⟩ | ⟨r, taken, pm', he, hroot⟩
  · rw [he] at hne
    exact absurd rfl hne
  have hrfree := hroot.gains.takes.free hroot.root
  have hpos := (hr.tablesUsed.free r hrfree).1
  have hcount := hnew.takes.freeFrames
  rw [hnew.card] at hcount
  have hsome : 0 < k₁.pm.frames.bitmap.freeFrames := Finset.card_pos.mpr ⟨r, hrfree⟩
  have hstack := h.userStack_true_iff hnew he (by omega) hroot
  refine ⟨by omega, ?_⟩
  cases hy : pm'.allocateVirtualForProcess (r * 4096) kUserStackBase kUserStackSize
      (kPresent ||| kWritable ||| kUser) with
  | mk ok pm₂ =>
    have hcall := AppKernel.createAppTask_of_root hc he (by omega) hy appEntry
    rw [hy] at hstack
    dsimp only at hstack
    cases ok with
    | true =>
      have henough := hstack.mp rfl
      have hreturns := Option.some_ne_none p
      rw [hcall, if_pos rfl]
      exact ⟨⟨fun hnone => absurd hnone hreturns, fun hfew => by omega⟩,
        fun hnone => absurd hnone hreturns⟩
    | false =>
      refine ⟨⟨fun _ => ?_, fun _ => hcall⟩, fun _ honce => ?_⟩
      · by_contra henough
        cases hstack.mpr (by omega)
      · obtain ⟨k₂, hfreed, hpm, happ, hcr3⟩ :=
          AppKernel.cleanup_of_root hc he (by omega) hy appEntry
        have hpml4 := pml4Table_allocateVirtualForProcess pm' (r * 4096) kUserStackBase
          kUserStackSize (kPresent ||| kWritable ||| kUser)
        rw [hy] at hpml4
        have hkernel : r * 4096 ≠ pm₂.pml4Table := by
          rw [hpml4, hroot.gains.pml4]
          exact hroot.root_ne hr.tablesUsed
        have hkernel' : r * 4096 ≠ k₂.pm.pml4Table := by
          rw [hpm, (pm₂.freeProcessPageTable_frees hpos hkernel).pml4]
          exact hkernel
        rw [hfreed, List.nodup_append] at honce
        exact honce.2.2 r (pm₂.mem_tableFreed (by omega) hkernel) r
          (AppKernel.mem_taskFreed happ hcr3 (by omega) hkernel') rfl

end Root

/-- A call that fails leaves no trace exactly if there was no room for the task itself, or with the
kernel's root loaded no frame was left for a root; otherwise there were frames enough for the call
to return a task. -/
theorem createAppTask_leavesNoTrace_iff (h : CreationState k roots live)
    (wrapperEntry appEntry : Nat) :
    ((k.createAppTask wrapperEntry appEntry).1 = none →
      LeavesNoTrace k roots live (k.createAppTaskCleanup wrapperEntry appEntry)
        (k.createAppTask wrapperEntry appEntry).2) ↔
    ¬FitsTask k.pm.frames ∨
      (k.pm.frames.bitmap.freeFrames = 5 ∧ k.pm.cr3 = k.pm.getKernelCR3) ∨
      5 + tableCount k.pm.memory (k.pm.pml4Table / 4096) + 16 +
        (missingTables k.pm kUserStackBase 15).card ≤ k.pm.frames.bitmap.freeFrames := by
  by_cases hfits : FitsTask k.pm.frames
  · rcases createTask_cases (fun f => h.free_pos) wrapperEntry with
      ⟨hno, -⟩ | ⟨-, p, k₁, hc⟩
    · exact absurd hfits hno
    by_cases hnull : k₁.pm.createProcessPageTable.1 = 0
    · obtain ⟨hfive, hnone, hiff⟩ := @createAppTask_null _ _ _ _ _ _ appEntry h hc hnull
      constructor
      · exact fun hleaves => Or.inr (Or.inl ⟨hfive, hiff.mp (hleaves hnone)⟩)
      · rintro (hno | ⟨-, hkernel⟩ | henough)
        · exact absurd hfits hno
        · exact fun _ => hiff.mpr hkernel
        · omega
    · obtain ⟨hne, hnone, htwice⟩ := @createAppTask_root _ _ _ _ _ _ appEntry h hc hnull
      constructor
      · intro hleaves
        refine Or.inr (Or.inr ?_)
        by_contra hfew
        have hfail := hnone.mpr (by omega)
        exact htwice hfail (hleaves hfail).once
      · rintro (hno | ⟨hfive, -⟩ | henough) hfail
        · exact absurd hfits hno
        · exact absurd hfive hne
        · have := hnone.mp hfail
          omega
  · exact ⟨fun _ => Or.inl hfits, fun _ _ => leavesNoTrace_of_not_fits h hfits⟩

end CreateAppTask

/-- A machine before `Initialize`, with the bytes of the bitmap from frame 64 on. `Initialize` takes
the frames 1 to 66. -/
def fewFrames (bytes : List (BitVec 8)) : PageManager where
  frames := ⟨⟨0x01#8 :: List.replicate 7 0#8 ++ bytes⟩, (64 + bytes.length * 8) * 4096⟩
  memory := fun _ _ => 0
  pml4Table := 0
  cr3 := 0
  outOfFrames := false

theorem fewFrames_bootable {bytes : List (BitVec 8)} (h : bytes.length < 2 ^ 32) :
    Bootable (fewFrames bytes) := by
  refine ⟨fun f hf => ?_, rfl⟩
  have hlt := Bitmap.lt_size_of_get hf
  have hsize : (fewFrames bytes).frames.bitmap.bitmapSize = 8 + bytes.length := by
    rw [fewFrames, Bitmap.bitmapSize, List.length_append, List.length_cons, List.length_replicate]
  refine ⟨?_, by omega⟩
  rcases Nat.eq_zero_or_pos f with rfl | hpos
  · simp [fewFrames, Bitmap.get] at hf
  · exact hpos

/-- A kernel with no task. -/
def withoutTasks (pm : PageManager) : AppKernel where
  pm := pm
  tasks := TaskManager.initializeTasks fun _ => TaskManager.newTask 0 0 0 0
  argvStrings := fun _ => []

/-- After `Initialize` a first task can be made. -/
theorem Bootable.creationState {pm : PageManager} (hb : Bootable pm) (P : PageManager → Bool)
    (h : (pm.initializePaging.any fun pm =>
      !pm.outOfFrames && (pm.cr3 == pm.getKernelCR3 && P pm)) = true) :
    ∃ pm', CreationState (withoutTasks pm') [pm'.getKernelCR3] [] ∧ P pm' = true := by
  obtain ⟨pm', hpm', hall⟩ := (Option.any_eq_true _ _).mp h
  obtain ⟨hout, hboth⟩ := (Bool.and_eq_true _ _).mp hall
  obtain ⟨hcr3, hP⟩ := (Bool.and_eq_true _ _).mp hboth
  refine ⟨pm', ⟨.start hb hpm' ((Bool.not_eq_true' _).mp hout), ?_, ⟨[], ?_⟩, nofun⟩, hP⟩
  · exact List.mem_singleton.mpr (eq_of_beq hcr3)
  · exact ⟨List.nodup_nil, rfl, rfl, nofun, nofun⟩

/-- With the kernel's root loaded and frames for a task but none for a root. -/
theorem createAppTask_leavesNoTrace_iff_small : ∃ k roots, CreationState k roots [] ∧
    ((k.createAppTask 0x1000 0x2000).1 = none →
      LeavesNoTrace k roots [] (k.createAppTaskCleanup 0x1000 0x2000)
        (k.createAppTask 0x1000 0x2000).2) := by
  obtain ⟨pm, hpm, hfive⟩ := (@fewFrames_bootable [0x00#8] (by decide)).creationState
    (fun pm => decide (pm.frames.bitmap.freeFrames = 5 ∧ pm.cr3 = pm.getKernelCR3))
    (by decide +kernel)
  exact ⟨_, _, hpm, (createAppTask_leavesNoTrace_iff hpm 0x1000 0x2000).mpr
    (Or.inr (Or.inl (of_decide_eq_true hfive)))⟩

/-- One frame more goes to the root, none is left for the copies and the user stack, and the root is
freed twice. -/
theorem createAppTask_leaves_trace : ¬∀ k roots live wrapperEntry appEntry,
    CreationState k roots live → (k.createAppTask wrapperEntry appEntry).1 = none →
      LeavesNoTrace k roots live (k.createAppTaskCleanup wrapperEntry appEntry)
        (k.createAppTask wrapperEntry appEntry).2 := by
  intro hall
  obtain ⟨pm, hpm, hrun⟩ := (@fewFrames_bootable [0x00#8, 0xFE#8] (by decide)).creationState
    (fun pm => decide (((withoutTasks pm).createAppTask 0x1000 0x2000).1 = none ∧
      ¬((withoutTasks pm).createAppTaskCleanup 0x1000 0x2000).freed.Nodup)) (by decide +kernel)
  obtain ⟨hnone, htwice⟩ := of_decide_eq_true hrun
  exact htwice (hall _ _ _ 0x1000 0x2000 hpm hnone).once

end Sylphia
