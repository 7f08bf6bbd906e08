import Sylphia.Core.Run
import Sylphia.Paging.AppTables
import Sylphia.Task.AppTask

/-!
# The frames of app tasks

`TerminateTask` gives back the control block, the kernel stack and the tables that
`FreeProcessPageTable` finds, at most nine frames. `CreateAppTask` has taken at least 25:
the 16 frames of the user stack are lost with every app task.
-/

namespace Sylphia

open RadixTree MemoryManager

/-- The fields of a control block that `TerminateTask` reads. -/
def Task.resources (t : Task) : Nat × Bool × Nat × Nat × Nat × Nat :=
  (t.context.cr3, t.isApp, t.kernelStack, t.kernelStackSize, t.argc, t.argv)

namespace TaskManager

variable (tm : TaskManager) (p q : TaskPtr)

private theorem resources_update {t : Task} (h : t.resources = (tm.task p).resources) :
    (Function.update tm.task p t q).resources = (tm.task q).resources := by
  by_cases hq : q = p
  · rw [hq, Function.update_self, h]
  · rw [Function.update_of_ne hq]

theorem resources_setNext (v : Option TaskPtr) :
    ((tm.setNext p v).task q).resources = (tm.task q).resources :=
  resources_update tm p q rfl

theorem resources_setPrev (v : Option TaskPtr) :
    ((tm.setPrev p v).task q).resources = (tm.task q).resources :=
  resources_update tm p q rfl

theorem resources_setState (v : TaskState) :
    ((tm.setState p v).task q).resources = (tm.task q).resources :=
  resources_update tm p q rfl

theorem resources_removeFromReadyQueue :
    ((tm.removeFromReadyQueue p).task q).resources = (tm.task q).resources := by
  have hprev (tm : TaskManager) : ((tm.bridgePrev p).task q).resources = (tm.task q).resources := by
    rw [bridgePrev]
    split
    · exact resources_setNext _ _ _ _
    · rfl
  have hnext (tm : TaskManager) : ((tm.bridgeNext p).task q).resources = (tm.task q).resources := by
    rw [bridgeNext]
    split
    · exact resources_setPrev _ _ _ _
    · rfl
  rw [removeFromReadyQueue, resources_setPrev, resources_setNext, hnext, hprev]
  rfl

theorem resources_terminateTask :
    ((tm.terminateTask p).task q).resources = (tm.task q).resources := by
  rw [terminateTask]
  exact (resources_setState _ _ _ _).trans (resources_removeFromReadyQueue tm p q)

end TaskManager

/-- The frames that were taken for an app task, with what is known of it as long as it
lives. -/
structure HoldsFrames (label : Labelling) (k : AppKernel) (p : TaskPtr) (taken : Finset Nat) :
    Prop where
  isApp : (k.tasks.task p).isApp = true
  noArgv : (k.tasks.task p).argv = 0
  root : ∃ r ∈ taken, (k.tasks.task p).context.cr3 = r * 4096 ∧ ownFrames k.pm.memory r ⊆ taken
  stackSize : (k.tasks.task p).kernelStackSize = kKernelStackSize
  stack : blockFrames (k.tasks.task p).kernelStack kKernelStackSize ⊆ taken
  block : blockFrames p sizeofTask ⊆ taken
  used : ∀ f ∈ taken, k.pm.frames.bitmap.get f = true
  named : ∀ f ∈ taken, 0 < f ∧ f < 2 ^ 40 ∧ f / 8 < k.pm.frames.bitmap.bitmapSize
  /-- None of them is a table of the kernel. -/
  unlabelled : ∀ f ∈ taken, label f = none
  card : 25 ≤ taken.card

namespace HoldsFrames

variable {label : Labelling} {k k' : AppKernel} {p q : TaskPtr} {taken taken' : Finset Nat}

/-- What changes no frame that the task holds, and none of its fields, keeps all this. -/
theorem congr (h : HoldsFrames label k p taken)
    (hfields : (k'.tasks.task p).resources = (k.tasks.task p).resources)
    (hmemory : ∀ f ∈ taken, k'.pm.memory f = k.pm.memory f)
    (hused : ∀ f ∈ taken, k'.pm.frames.bitmap.get f = true)
    (hsize : k'.pm.frames.bitmap.bitmapSize = k.pm.frames.bitmap.bitmapSize) :
    HoldsFrames label k' p taken := by
  simp only [Task.resources, Prod.mk.injEq] at hfields
  obtain ⟨hcr3, happ, hstack, hstackSize, -, hargv⟩ := hfields
  obtain ⟨r, hr, hroot, hown⟩ := h.root
  refine ⟨happ.trans h.isApp, hargv.trans h.noArgv, ⟨r, hr, hcr3.trans hroot, ?_⟩,
    hstackSize.trans h.stackSize, hstack.symm ▸ h.stack, h.block, hused, ?_, h.unlabelled, h.card⟩
  · have hsame : ownFrames k'.pm.memory r = ownFrames k.pm.memory r := by
      rw [ownFrames, ownFrames, hmemory r hr]
      split
      · next hp =>
        have hpdp : (k.pm.memory r 0).address ∈ taken := by
          refine hown ?_
          rw [ownFrames, if_pos hp]
          simp
        rw [directoryFrame, directoryFrame, hmemory _ hpdp]
        rfl
      · rfl
    rw [hsame]
    exact hown
  · rw [hsize]
    exact h.named

/-- The pointer of a task is in a frame of its own. -/
theorem ne (h : HoldsFrames label k p taken) (h' : HoldsFrames label k' q taken')
    (hd : Disjoint taken taken') :
    p ≠ q := by
  rintro rfl
  have hmem : p / kFrameSize ∈ blockFrames p sizeofTask := mem_blockFrames (by decide)
  exact Finset.disjoint_left.mp hd (h.block hmem) (h'.block hmem)

end HoldsFrames

/-- Taking frames for something that is no table. -/
theorem KernelLayout.take {label : Labelling} {pm : PageManager} (h : KernelLayout label pm)
    {s : Finset Nat} {frames : MemoryManager} (ht : pm.frames.Takes s frames) :
    KernelLayout label { pm with frames } where
  layout := h.layout.congr (fun _ _ _ _ => rfl)
    (fun t hl => ht.used (h.layout.allocated.used t hl)) fun f hf => by
      have hmem : f ∈ frames.bitmap.freeSet := hf
      rw [ht.left] at hmem
      exact h.tablesUsed.free f (Finset.mem_sdiff.mp hmem).1
  aligned := h.aligned
  rooted := h.rooted

namespace AppKernel

variable {label : Labelling} {k k' : AppKernel} {p : TaskPtr}

/-- What `CreateTask` has done when it returns a task. -/
structure CreatesTask (k : AppKernel) (entryPoint : Nat) (p : TaskPtr) (stack : Nat)
    (k' : AppKernel) : Prop where
  takes : k.pm.frames.Takes (blockFrames p sizeofTask ∪ blockFrames stack kKernelStackSize)
    k'.pm.frames
  card : (blockFrames p sizeofTask ∪ blockFrames stack kKernelStackSize).card = 5
  pm : k'.pm = { k.pm with frames := k'.pm.frames }
  task : k'.tasks.task =
    Function.update k.tasks.task p
      (TaskManager.newTask k.tasks.nextTaskId stack entryPoint k.pm.cr3)

theorem createTask_some {entryPoint : Nat} (h : k.createTask entryPoint = (some p, k')) :
    ∃ stack, CreatesTask k entryPoint p stack k' := by
  rw [createTask] at h
  rcases k.pm.frames.allocate_takes sizeofTask with he | ⟨i, m₁, ht₁, he⟩
  · rw [he] at h
    dsimp only at h
    rw [if_pos rfl] at h
    cases h
  rw [he] at h
  dsimp only at h
  split at h
  · cases h
  next hp =>
  rcases m₁.allocate_takes kKernelStackSize with he₂ | ⟨j, m₂, ht₂, he₂⟩
  · rw [he₂] at h
    dsimp only at h
    rw [if_pos rfl] at h
    cases h
  rw [he₂] at h
  dsimp only at h
  split at h
  · cases h
  next hstack =>
  rw [TaskManager.createTask, if_neg hp, if_neg hstack] at h
  obtain ⟨hpe, rfl⟩ := Prod.mk.inj h
  obtain rfl := Option.some.inj hpe
  refine ⟨j * kFrameSize, ht₁.trans ht₂, ?_, rfl, rfl⟩
  rw [Finset.card_union_of_disjoint (ht₁.disjoint ht₂), blockFrames, blockFrames, Nat.card_Ico,
    Nat.card_Ico, Nat.add_sub_cancel_left, Nat.add_sub_cancel_left]
  rfl

/-- What `CreateAppTask` has done when it returns a task. -/
structure CreatesApp (label : Labelling) (k : AppKernel) (p : TaskPtr) (taken : Finset Nat)
    (k' : AppKernel) : Prop where
  takes : k.pm.frames.Takes taken k'.pm.frames
  kernel : KernelLayout label k'.pm
  holds : HoldsFrames label k' p taken
  others : ∀ q, q ≠ p → k'.tasks.task q = k.tasks.task q
  memory : ∀ t, k.pm.frames.bitmap.get t = true → label t = none →
    k'.pm.memory t = k.pm.memory t

/-- The frames of a new app task: its block and its stack, and then its tables and its
memory. -/
private theorem createsApp (h : KernelLayout label k.pm) {entryPoint stack r : Nat} {k₁ : AppKernel}
    {taken : Finset Nat} (hnew : CreatesTask k entryPoint p stack k₁)
    (happ : AppTables label k₁.pm r 16 taken k'.pm)
    (hcr3 : (k'.tasks.task p).context.cr3 = r * 4096)
    (hargv : (k'.tasks.task p).argv = 0) (hisApp : (k'.tasks.task p).isApp = true)
    (hstack : (k'.tasks.task p).kernelStack = stack)
    (hsize : (k'.tasks.task p).kernelStackSize = kKernelStackSize)
    (hothers : ∀ q, q ≠ p → k'.tasks.task q = k.tasks.task q) :
    CreatesApp label k p
      (blockFrames p sizeofTask ∪ blockFrames stack kKernelStackSize ∪ taken) k' := by
  have htakes := hnew.takes.trans happ.takes
  have hfree {f : Nat}
      (hf : f ∈ blockFrames p sizeofTask ∪ blockFrames stack kKernelStackSize ∪ taken) :
      k.pm.frames.bitmap.get f = false := Bitmap.mem_freeSet.mp (htakes.free hf)
  refine ⟨htakes, happ.kernel, ⟨hisApp, hargv, ⟨r, Finset.mem_union_right _ happ.root, hcr3,
    happ.own.trans Finset.subset_union_right⟩, hsize, ?_, ?_, fun f hf => htakes.taken hf,
    fun f hf => ?_, fun f hf => ?_, ?_⟩, hothers, fun t hused hnone => ?_⟩
  · rw [hstack]
    exact Finset.subset_union_right.trans Finset.subset_union_left
  · exact Finset.subset_union_left.trans Finset.subset_union_left
  · obtain ⟨hpos, h40⟩ := h.layout.allocated.free f (hfree hf)
    rw [htakes.size]
    exact ⟨hpos, h40, Bitmap.lt_size_of_get (hfree hf)⟩
  · by_contra hc
    have hu := h.layout.allocated.used f hc
    rw [hfree hf] at hu
    cases hu
  · rw [Finset.card_union_of_disjoint (hnew.takes.disjoint happ.takes), hnew.card]
    have := happ.card
    omega
  · rw [happ.others t (hnew.takes.used hused) hnone, hnew.pm]

theorem createAppTask_some (h : KernelLayout label k.pm) {wrapperEntry appEntry : Nat}
    (he : k.createAppTask wrapperEntry appEntry = (some p, k'))
    (hout : k'.pm.outOfFrames = false) :
    ∃ taken, CreatesApp label k p taken k' := by
  rw [createAppTask] at he
  cases hc : k.createTask wrapperEntry with
  | mk created k₁ =>
    cases created with
    | none =>
      rw [hc] at he
      cases he
    | some task =>
      obtain ⟨stack, hnew⟩ := createTask_some hc
      rw [hc] at he
      dsimp only [modifyTask] at he
      cases hx : k₁.pm.createProcessPageTable with
      | mk ptr pm₁ =>
        rw [hx] at he
        dsimp only at he
        split at he
        · cases he
        cases hy : pm₁.allocateVirtualForProcess ptr kUserStackBase kUserStackSize
            (kPresent ||| kWritable ||| kUser) with
        | mk ok pm₂ =>
          rw [hy] at he
          dsimp only at he
          split at he
          · cases he
          next hok =>
          obtain ⟨hpe, rfl⟩ := Prod.mk.inj he
          obtain rfl := Option.some.inj hpe
          have hk₁ : KernelLayout label k₁.pm := by
            rw [hnew.pm]
            exact h.take hnew.takes
          rw [show ok = true by simpa using hok] at hy
          obtain ⟨r, taken, rfl, happ⟩ := hk₁.createAppTables (by decide) (by decide) hx hy hout
          refine ⟨_, createsApp h hnew happ ?_ ?_ ?_ ?_ ?_ fun q hq => ?_⟩
          case refine_6 => simp [hnew.task, hq]
          all_goals simp [hnew.task, TaskManager.newTask]

/-- What `TerminateTask` has done to a task: some of its frames, nine at most, are free. -/
structure Terminates (k : AppKernel) (taken freed : Finset Nat) (k' : AppKernel) : Prop where
  within : freed ⊆ taken
  card : freed.card ≤ 9
  free : k'.pm.frames.bitmap.freeSet = k.pm.frames.bitmap.freeSet ∪ freed
  size : k'.pm.frames.bitmap.bitmapSize = k.pm.frames.bitmap.bitmapSize
  memory : ∀ t, t ∉ taken → k'.pm.memory t = k.pm.memory t
  resources : ∀ q, (k'.tasks.task q).resources = (k.tasks.task q).resources
  pml4 : k'.pm.pml4Table = k.pm.pml4Table

theorem card_ownFrames_le (memory : Nat → Nat → PageTableEntry) (r : Nat) :
    (ownFrames memory r).card ≤ 4 := by
  have hdir (p i : Nat) : (directoryFrame memory p i).card ≤ 1 := by
    rw [directoryFrame]
    split
    · exact le_of_eq (Finset.card_singleton _)
    · exact Nat.zero_le _
  rw [ownFrames]
  split
  · have h0 := hdir (memory r 0).address 0
    have h1 := hdir (memory r 0).address 1
    have hunion := Finset.card_union_le (directoryFrame memory (memory r 0).address 0)
      (directoryFrame memory (memory r 0).address 1)
    have hinsert := Finset.card_insert_le (memory r 0).address
      (directoryFrame memory (memory r 0).address 0 ∪ directoryFrame memory (memory r 0).address 1)
    refine (Finset.card_insert_le _ _).trans ?_
    omega
  · rw [Finset.card_singleton]
    decide

/-- `TerminateTask` of an app task with a kernel stack, a page table of its own and no
arguments. -/
private theorem terminateTask_eq {taken : Finset Nat} (h : HoldsFrames label k p taken) {r : Nat}
    (hroot : (k.tasks.task p).context.cr3 = r * 4096) (hpos : 0 < r)
    (hk : r * 4096 ≠ k.pm.pml4Table) :
    k.terminateTask p =
      { k with
        tasks := k.tasks.terminateTask p
        pm := { k.pm.freeProcessPageTable (r * 4096) with
          frames := ((k.pm.freeProcessPageTable (r * 4096)).frames.free
            (k.tasks.task p).kernelStack kKernelStackSize).free p sizeofTask } } := by
  have hfields := k.tasks.resources_terminateTask p p
  simp only [Task.resources, Prod.mk.injEq] at hfields
  obtain ⟨hcr3, happ, hstack, hstackSize, -, hargv⟩ := hfields
  have hne : (k.tasks.task p).kernelStack ≠ 0 :=
    ne_zero_of_blockFrames (by decide) h.stack fun f hf => (h.named f hf).1
  have hfree : r * 4096 ≠ 0 ∧ r * 4096 ≠ k.pm.getKernelCR3 := ⟨by omega, hk⟩
  rw [terminateTask]
  dsimp only
  rw [happ, if_pos h.isApp, hstack, if_pos hne, hstackSize, h.stackSize, freeTable, hcr3, hroot]
  dsimp only
  rw [if_pos hfree, freeArgv, hargv, h.noArgv, if_neg (not_not.mpr rfl)]
  simp only [onFrames]

theorem terminateTask_terminates {taken : Finset Nat} (h : HoldsFrames label k p taken)
    (hkernel : KernelLayout label k.pm) :
    ∃ freed, Terminates k taken freed (k.terminateTask p) := by
  obtain ⟨r, hr, hroot, hown⟩ := h.root
  have hpos := (h.named r hr).1
  have hk : r * 4096 ≠ k.pm.pml4Table := by
    intro hc
    have hlab := hkernel.rooted
    rw [← hc, Nat.mul_div_cancel r (by decide), h.unlabelled r hr] at hlab
    cases hlab
  have hfrees := PageManager.freeProcessPageTable_frees k.pm hpos hk
  rw [terminateTask_eq h hroot hpos hk]
  have hmanaged {s : Finset Nat} (hs : s ⊆ taken) :
      (s.filter fun f => f / 8 < k.pm.frames.bitmap.bitmapSize) = s :=
    Finset.filter_true_of_mem fun f hf => (h.named f (hs hf)).2.2
  have hown' : k.pm.managed (ownFrames k.pm.memory r) = ownFrames k.pm.memory r := hmanaged hown
  have hfour := card_ownFrames_le k.pm.memory r
  refine ⟨ownFrames k.pm.memory r ∪ blockFrames (k.tasks.task p).kernelStack kKernelStackSize ∪
    blockFrames p sizeofTask, ?_, ?_, ?_, ?_, ?_, ?_, ?_⟩
  · exact Finset.union_subset (Finset.union_subset hown h.stack) h.block
  · have h1 := Finset.card_union_le (ownFrames k.pm.memory r)
      (blockFrames (k.tasks.task p).kernelStack kKernelStackSize)
    have h2 := Finset.card_union_le (ownFrames k.pm.memory r ∪
      blockFrames (k.tasks.task p).kernelStack kKernelStackSize) (blockFrames p sizeofTask)
    have hs : (blockFrames (k.tasks.task p).kernelStack kKernelStackSize).card = 4 := by
      rw [blockFrames, Nat.card_Ico, Nat.add_sub_cancel_left]
      rfl
    have hb : (blockFrames p sizeofTask).card = 1 := by
      rw [blockFrames, Nat.card_Ico, Nat.add_sub_cancel_left]
      rfl
    omega
  · dsimp only
    rw [freeSet_free, bitmapSize_free, freeSet_free, hfrees.size, hfrees.free, hown',
      hmanaged h.stack, hmanaged h.block, Finset.union_assoc, Finset.union_assoc,
      Finset.union_assoc]
  · dsimp only
    rw [bitmapSize_free, bitmapSize_free, hfrees.size]
  · exact fun t ht => hfrees.memory t fun hm => ht (hown hm)
  · exact k.tasks.resources_terminateTask p
  · exact hfrees.pml4

end AppKernel

/-! ## Runs of creations and terminations -/

/-- The kernel, and the app tasks that live, each with the frames that were taken for it. -/
structure AppTaskSystem where
  kernel : AppKernel
  live : List (TaskPtr × Finset Nat)

/-- The calls of a run. -/
inductive AppTaskOp
  | createAppTask (wrapperEntry appEntry : Nat)
  | terminateTask (task : TaskPtr)
  deriving DecidableEq, Repr

namespace AppTaskSystem

/-- The free frames. -/
def freeSet (s : AppTaskSystem) : Finset Nat := s.kernel.pm.frames.bitmap.freeSet

/-- One call; the frames of a new task are those that it turns from free to used. -/
def step (s : AppTaskSystem) : AppTaskOp → AppTaskSystem
  | .createAppTask wrapperEntry appEntry =>
    match s.kernel.createAppTask wrapperEntry appEntry with
    | (none, kernel) => { s with kernel }
    | (some task, kernel) =>
      ⟨kernel, (task, s.freeSet \ kernel.pm.frames.bitmap.freeSet) :: s.live⟩
  | .terminateTask task => ⟨s.kernel.terminateTask task, s.live.filter fun x => x.1 ≠ task⟩

/-- No allocation fails, and a task that is terminated lives. -/
def Admissible (s : AppTaskSystem) : AppTaskOp → Prop
  | .createAppTask wrapperEntry appEntry =>
    (s.kernel.createAppTask wrapperEntry appEntry).1.isSome = true ∧
      (s.kernel.createAppTask wrapperEntry appEntry).2.pm.outOfFrames = false
  | .terminateTask task => ∃ x ∈ s.live, x.1 = task

instance (s : AppTaskSystem) : (o : AppTaskOp) → Decidable (s.Admissible o)
  | .createAppTask _ _ => inferInstanceAs (Decidable (_ ∧ _))
  | .terminateTask _ => inferInstanceAs (Decidable (∃ x ∈ s.live, _))

/-- The kernel has its tables, and there is no app task. -/
def Start (s : AppTaskSystem) : Prop :=
  (∃ label, KernelLayout label s.kernel.pm) ∧ s.live = []

/-- The runs from a kernel without app tasks. -/
abbrev Runs : List (AppTaskSystem × AppTaskOp) → AppTaskSystem → Prop :=
  Transition.Run step Admissible Start

/-- The termination of a task gives back every frame that was taken for it. -/
def ReturnsFrames (x : AppTaskSystem × AppTaskOp) (taken : Finset Nat) : Prop :=
  taken ⊆ (x.1.step x.2).freeSet ∧ (x.1.step x.2).freeSet.card = x.1.freeSet.card + taken.card

instance (x : AppTaskSystem × AppTaskOp) (taken : Finset Nat) : Decidable (ReturnsFrames x taken) :=
  inferInstanceAs (Decidable (_ ∧ _))

/-- The termination of a task leaves 16 of its frames used at least. -/
def LosesFrames (x : AppTaskSystem × AppTaskOp) (taken : Finset Nat) : Prop :=
  16 ≤ (taken \ (x.1.step x.2).freeSet).card ∧
    (x.1.step x.2).freeSet.card + 16 ≤ x.1.freeSet.card + taken.card

/-- The invariant of runs: the tasks hold their frames, each its own. -/
def Inv (s : AppTaskSystem) : Prop :=
  ∃ label, KernelLayout label s.kernel.pm ∧ (∀ x ∈ s.live, HoldsFrames label s.kernel x.1 x.2) ∧
    s.live.Pairwise fun x y => Disjoint x.2 y.2

theorem Inv.create {s : AppTaskSystem} (h : s.Inv) {wrapperEntry appEntry : Nat}
    (ho : s.Admissible (.createAppTask wrapperEntry appEntry)) :
    (s.step (.createAppTask wrapperEntry appEntry)).Inv := by
  obtain ⟨label, hkernel, hholds, hapart⟩ := h
  obtain ⟨hsome, hout⟩ := ho
  cases he : s.kernel.createAppTask wrapperEntry appEntry with
  | mk created k' =>
    rw [he] at hsome hout
    obtain ⟨p, rfl⟩ := Option.isSome_iff_exists.mp hsome
    obtain ⟨taken, hnew⟩ := AppKernel.createAppTask_some hkernel he hout
    have htaken : s.freeSet \ k'.pm.frames.bitmap.freeSet = taken := by
      rw [hnew.takes.left, freeSet, Finset.sdiff_sdiff_eq_self hnew.takes.free]
    have hd {x : TaskPtr × Finset Nat} (hx : x ∈ s.live) : Disjoint taken x.2 := by
      rw [Finset.disjoint_left]
      intro f hf hfx
      exact Bitmap.get_eq_true_iff.mp ((hholds x hx).used f hfx) (hnew.takes.free hf)
    have hold {x : TaskPtr × Finset Nat} (hx : x ∈ s.live) : HoldsFrames label k' x.1 x.2 := by
      have hne : x.1 ≠ p := (hholds x hx).ne hnew.holds (hd hx).symm
      refine (hholds x hx).congr (by rw [hnew.others _ hne]) (fun f hf => ?_) (fun f hf => ?_)
        hnew.takes.size
      · exact hnew.memory f ((hholds x hx).used f hf) ((hholds x hx).unlabelled f hf)
      · exact hnew.takes.used ((hholds x hx).used f hf)
    rw [step, he]
    dsimp only
    rw [htaken]
    refine ⟨label, hnew.kernel, fun x hx => ?_, List.pairwise_cons.mpr ⟨fun x hx => hd hx, hapart⟩⟩
    rcases List.mem_cons.mp hx with rfl | hx
    · exact hnew.holds
    · exact hold hx

/-- The termination of a task that holds its frames. -/
theorem Inv.terminate {s : AppTaskSystem} (h : s.Inv) {p : TaskPtr} {taken : Finset Nat}
    (hp : (p, taken) ∈ s.live) :
    LosesFrames (s, .terminateTask p) taken ∧ (s.step (.terminateTask p)).Inv := by
  obtain ⟨label, hkernel, hholds, hapart⟩ := h
  have hheld : HoldsFrames label s.kernel p taken := hholds _ hp
  obtain ⟨freed, hterm⟩ := AppKernel.terminateTask_terminates hheld hkernel
  have hfree : (s.step (.terminateTask p)).freeSet = s.freeSet ∪ freed := hterm.free
  have hcard := hheld.card
  have hnine := hterm.card
  have hunion := Finset.card_union_le s.freeSet freed
  have hsdiff : taken \ (s.freeSet ∪ freed) = taken \ freed := by
    have hd : Disjoint taken s.freeSet := Finset.disjoint_left.mpr fun f hf =>
      Bitmap.get_eq_true_iff.mp (hheld.used f hf)
    rw [Finset.sdiff_union_distrib, Finset.sdiff_eq_self_of_disjoint hd,
      Finset.inter_eq_right.mpr Finset.sdiff_subset]
  have hleft := Finset.card_sdiff_add_card_eq_card hterm.within
  refine ⟨⟨?_, ?_⟩, label, ⟨?_, ?_, ?_⟩, fun x hx => ?_, hapart.filter _⟩
  · rw [hfree, hsdiff]
    omega
  · rw [hfree]
    dsimp only
    omega
  · have hnot {t : Nat} (ht : label t ≠ none) : t ∉ taken := fun hm => ht (hheld.unlabelled t hm)
    refine hkernel.layout.congr (fun t n lead ht => hterm.memory t (hnot (by simp [ht])))
      (fun t ht => ?_) fun f hf => ?_
    · have hu := Bitmap.get_eq_true_iff.mp (hkernel.layout.allocated.used t ht)
      refine Bitmap.get_eq_true_iff.mpr fun hm => ?_
      rcases Finset.mem_union.mp (hterm.free ▸ hm) with hm | hm
      · exact hu hm
      · exact hnot ht (hterm.within hm)
    · rcases Finset.mem_union.mp (hterm.free ▸ hf) with hm | hm
      · exact hkernel.tablesUsed.free f hm
      · obtain ⟨hpos, h40, -⟩ := hheld.named f (hterm.within hm)
        exact ⟨hpos, h40⟩
  · rw [← hkernel.aligned]
    exact congrArg (· % 4096) hterm.pml4
  · exact (congrArg (fun r => label (r / 4096)) hterm.pml4).trans hkernel.rooted
  · obtain ⟨hx, hne⟩ := List.mem_filter.mp hx
    have hne' : x ≠ (p, taken) := by
      rintro rfl
      simp at hne
    have hsymm : Std.Symm fun x y : TaskPtr × Finset Nat => Disjoint x.2 y.2 :=
      ⟨fun _ _ hd => hd.symm⟩
    have hd : Disjoint x.2 taken := hapart.forall hx hp hne'
    refine (hholds x hx).congr (hterm.resources x.1) (fun f hf => ?_) (fun f hf => ?_) hterm.size
    · exact hterm.memory f (Finset.disjoint_left.mp hd hf)
    · have hu := Bitmap.get_eq_true_iff.mp ((hholds x hx).used f hf)
      refine Bitmap.get_eq_true_iff.mpr fun hm => ?_
      rcases Finset.mem_union.mp (hterm.free ▸ hm) with hm | hm
      · exact hu hm
      · exact Finset.disjoint_left.mp hd hf (hterm.within hm)

theorem step_inv {s : AppTaskSystem} {o : AppTaskOp} (h : s.Inv) (ho : s.Admissible o) :
    (s.step o).Inv := by
  cases o with
  | createAppTask wrapperEntry appEntry => exact h.create ho
  | terminateTask task =>
    obtain ⟨x, hx, rfl⟩ := ho
    exact (h.terminate hx).2

/-- In every run, each termination of an app task fails to give back the frames that were
taken for it: 16 of them at least stay used. -/
theorem app_frames_lost {run : List (AppTaskSystem × AppTaskOp)} {s : AppTaskSystem}
    (h : Runs run s) :
    Transition.Throughout (fun _ x => ∀ p taken, x.2 = .terminateTask p → (p, taken) ∈ x.1.live →
      ¬ ReturnsFrames x taken ∧ LosesFrames x taken) run := by
  induction h with
  | start _ => trivial
  | @step past s o hrun _ ih =>
    refine ⟨fun p taken ho hp => ?_, ih⟩
    have hinv : s.Inv := hrun.invariant (I := fun _ s => s.Inv)
      (fun s hs => by
        obtain ⟨⟨label, hlabel⟩, hlive⟩ := hs
        exact ⟨label, hlabel, by simp [hlive], by simp [hlive]⟩)
      fun _ _ _ hi hok => step_inv hi hok
    dsimp only at ho hp
    subst ho
    obtain ⟨hlost, -⟩ := hinv.terminate hp
    refine ⟨fun hreturned => ?_, hlost⟩
    have hless := hlost.2
    rw [hreturned.2] at hless
    omega

/-- A kernel with 45 free frames and no task. -/
def smallApps : AppTaskSystem where
  kernel :=
    { pm := bootedKernel (0x07#8 :: List.replicate 5 0#8)
      tasks := TaskManager.initializeTasks fun _ => TaskManager.newTask 0 0 0 0
      argvStrings := fun _ => [] }
  live := []

/-- The same kernel with one app task, whose control block is in frame 67. -/
def oneApp : AppTaskSystem := smallApps.step (.createAppTask 0x1000 0x2000)

theorem oneApp_runs : Runs [(smallApps, .createAppTask 0x1000 0x2000)] oneApp :=
  .step _ (.start ⟨⟨identityLabel, bootedKernel_layout (by decide)⟩, rfl⟩) (by decide +kernel)

/-- The frames that were taken for it. -/
def oneAppFrames : Finset Nat := smallApps.freeSet \ oneApp.freeSet

theorem oneApp_live : (0x43000, oneAppFrames) ∈ oneApp.live := by decide +kernel

/-- When the task is terminated, at least 16 of its frames are lost. -/
theorem app_frames_lost_one : (0x43000, oneAppFrames) ∈ oneApp.live ∧
    LosesFrames (oneApp, .terminateTask 0x43000) oneAppFrames := by
  have hok : oneApp.Admissible (.terminateTask 0x43000) := ⟨_, oneApp_live, rfl⟩
  have hlost := app_frames_lost (.step (.terminateTask 0x43000) oneApp_runs hok)
  exact ⟨oneApp_live, (hlost.1 0x43000 oneAppFrames rfl oneApp_live).2⟩

/-- Of its 26 frames only nine are free again. -/
theorem app_frames_not_returned : (0x43000, oneAppFrames) ∈ oneApp.live ∧
    ¬ ReturnsFrames (oneApp, .terminateTask 0x43000) oneAppFrames :=
  ⟨oneApp_live, by decide +kernel⟩

end AppTaskSystem

end Sylphia
