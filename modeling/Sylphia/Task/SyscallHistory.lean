import Sylphia.Task.Syscall

/-!
# Stack pointers across system calls

Which kernel stack a `SyscallEntry` loads, and which user stack pointer its `sysret`
restores, in every interleaving of starts, system calls, switches and returns.
-/

namespace Sylphia

open Transition

/-! ## Kernel stacks stay where they are -/

namespace TaskManager

variable (tm : TaskManager) (p : TaskPtr)

@[simp] theorem stack_remove : (tm.removeFromReadyQueue p).stack = tm.stack := by
  unfold removeFromReadyQueue bridgeNext bridgePrev
  split <;> split <;> simp only [stack_setPrev, stack_setNext] <;> rfl

@[simp] theorem stack_add : (tm.addToReadyQueue p).stack = tm.stack := by
  have hlinks : (((tm.setState p .ready).setNext p none).setPrev p tm.readyQueueTail).stack =
      tm.stack := by simp
  unfold addToReadyQueue
  split
  · rfl
  · simp only [readyQueueTail_setPrev, readyQueueTail_setNext, readyQueueTail_setState]
    split
    · exact (stack_setNext _ _ _).trans hlinks
    · exact hlinks

@[simp] theorem stack_requeueCurrent : (Scheduler.requeueCurrent tm).stack = tm.stack := by
  unfold Scheduler.requeueCurrent
  split
  · split <;> simp
  · rfl

@[simp] theorem stack_dispatch : (Scheduler.dispatch tm p).stack = tm.stack := by
  have hstate : ((tm.removeFromReadyQueue p).setState p .running).stack = tm.stack := by simp
  exact hstate

@[simp] theorem stack_schedule (s : Scheduler) (voluntary : Bool) :
    (s.schedule voluntary).1.tasks.stack = s.tasks.stack := by
  unfold Scheduler.schedule
  split
  · rfl
  · split
    · rfl
    · split
      · rfl
      · split
        · rfl
        · simp

@[simp] theorem stack_terminateAndClear :
    (TaskSystem.terminateAndClear tm p).stack = tm.stack := by
  have hterm : (tm.terminateTask p).stack = tm.stack := by
    have hstate : ((tm.removeFromReadyQueue p).setState p .terminated).stack = tm.stack := by simp
    exact hstate
  unfold TaskSystem.terminateAndClear
  split
  · exact hterm
  · exact hterm

end TaskManager

/-- Apart from creation, no operation moves a kernel stack or makes a task live. -/
theorem TaskSystem.step_stack (s : TaskSystem) {op : TaskOp}
    (hop : ∀ task stack entryPoint cr3, op ≠ .createTask task stack entryPoint cr3) :
    (s.step op).scheduler.tasks.stack = s.scheduler.tasks.stack ∧
      ∀ p ∈ (s.step op).live, p ∈ s.live := by
  cases op with
  | createTask task stack entryPoint cr3 => exact absurd rfl (hop task stack entryPoint cr3)
  | markApp p =>
    refine ⟨?_, fun q hq => hq⟩
    funext q
    by_cases hq : q = p
    · subst hq
      simp [TaskSystem.step, TaskSystem.onTasks, TaskManager.stack]
    · simp [TaskSystem.step, TaskSystem.onTasks, TaskManager.stack, hq]
  | addToReadyQueue p => exact ⟨TaskManager.stack_add _ p, fun q hq => hq⟩
  | removeFromReadyQueue p => exact ⟨TaskManager.stack_remove _ p, fun q hq => hq⟩
  | blockTask p =>
    have hstate : ((s.scheduler.tasks.removeFromReadyQueue p).setState p .blocked).stack =
        s.scheduler.tasks.stack := by simp
    exact ⟨hstate, fun q hq => hq⟩
  | wakeTask p =>
    refine ⟨?_, fun q hq => hq⟩
    change (s.scheduler.tasks.wakeTask p).stack = _
    unfold TaskManager.wakeTask
    split
    · exact TaskManager.stack_add _ p
    · rfl
  | terminate p =>
    exact ⟨TaskManager.stack_terminateAndClear _ p, fun q hq => List.mem_of_mem_erase hq⟩
  | schedule voluntary => exact ⟨TaskManager.stack_schedule _ voluntary, fun q hq => hq⟩
  | setEnabled enabled => exact ⟨rfl, fun q hq => hq⟩

namespace AppSystem

/-- The kernel stacks of live tasks, none of which moves or overlaps another. -/
structure Stacks (s : AppSystem) : Prop where
  reachable : s.system.Reachable
  size : ∀ p ∈ s.system.live, (s.tasks.stack p).2 = kKernelStackSize
  apart : ∀ p ∈ s.system.live, ∀ q ∈ s.system.live, p ≠ q →
    StackApart (s.tasks.stack p).1 (s.tasks.stack q).1

/-- No task becomes live and no kernel stack moves. -/
structure Retains (s s' : AppSystem) : Prop where
  reachable : s.system.Reachable → s'.system.Reachable
  live : ∀ p ∈ s'.system.live, p ∈ s.system.live
  stack : s'.tasks.stack = s.tasks.stack

namespace Stacks

variable {s : AppSystem} {t u : TaskPtr}

theorem retain {s' : AppSystem} (h : s.Stacks) (hr : s.Retains s') : s'.Stacks where
  reachable := hr.reachable h.reachable
  size := fun p hp => by rw [hr.stack]; exact h.size p (hr.live p hp)
  apart := fun p hp q hq hne => by
    rw [hr.stack]
    exact h.apart p (hr.live p hp) q (hr.live q hq) hne

theorem current_live (h : s.Stacks) (hc : s.current = some t) : t ∈ s.system.live := by
  obtain ⟨l, hl⟩ := h.reachable.inv
  exact hl.tasks.current t hc

theorem stackTop_eq (h : s.Stacks) (ht : t ∈ s.system.live) :
    s.stackTop t = (s.tasks.stack t).1 + kKernelStackSize := by
  rw [stackTop, TaskManager.stackTop, h.size t ht]

/-- Different live tasks have different stack tops. -/
theorem stackTop_ne (h : s.Stacks) (ht : t ∈ s.system.live) (hu : u ∈ s.system.live)
    (hne : t ≠ u) : s.stackTop t ≠ s.stackTop u := by
  have hk : 0 < kKernelStackSize := by decide
  rw [h.stackTop_eq ht, h.stackTop_eq hu]
  rcases h.apart t ht u hu hne with ha | ha <;> omega

/-- An address in the stack of one live task is outside that of every other. -/
theorem outside (h : s.Stacks) (ht : t ∈ s.system.live) (hu : u ∈ s.system.live) (hne : t ≠ u)
    {a b : Nat} (hb : b < s.stackTop t) (hb' : s.stackTop t ≤ b + kKernelStackSize)
    (ha : (s.tasks.stack u).1 ≤ a) (ha' : a < s.stackTop u) : a ≠ b := by
  rw [h.stackTop_eq ht] at hb hb'
  rw [h.stackTop_eq hu] at ha'
  rcases h.apart t ht u hu hne with hap | hap <;> omega

end Stacks

private theorem step_task_of_ne (s : AppSystem) {op : TaskOp}
    (hop : ∀ task stack entryPoint cr3, op ≠ .createTask task stack entryPoint cr3) :
    s.step (.task op) = { s with system := s.system.step op } := by
  cases op with
  | createTask task stack entryPoint cr3 => exact absurd rfl (hop task stack entryPoint cr3)
  | _ => rfl

private theorem retains_task (s : AppSystem) (op : TaskOp)
    (hop : ∀ task stack entryPoint cr3, op ≠ .createTask task stack entryPoint cr3)
    (ha : s.system.Admissible op) : s.Retains { s with system := s.system.step op } where
  reachable := fun h => h.step op ha
  live := (s.system.step_stack hop).2
  stack := (s.system.step_stack hop).1

/-- A step that changes neither the phase of a task, nor the shared block, nor memory. -/
structure Quiet (s : AppSystem) (o : AppOp) : Prop where
  retains : s.Retains (s.step o)
  phase : (s.step o).phase = s.phase
  context : (s.step o).context = s.context
  memory : (s.step o).memory = s.memory
  started : startedBy (s, o) = none
  entered : enteredBy (s, o) = none
  notReturn : o ≠ .sysret

private theorem Retains.refl (s : AppSystem) : s.Retains s := ⟨id, fun _ hp => hp, rfl⟩

private theorem inUserMode_iff {s : AppSystem} :
    s.inUserMode = true ↔ ∃ t rsp r, s.current = some t ∧ s.phase t = .user rsp r := by
  unfold inUserMode
  cases hc : s.current with
  | none => simp
  | some t =>
    rw [Option.map_some]
    cases hp : s.phase t <;> simp [hp]

private theorem inSyscall_iff {s : AppSystem} :
    s.inSyscall = true ↔ ∃ t top, s.current = some t ∧ s.phase t = .syscall top := by
  unfold inSyscall
  cases hc : s.current with
  | none => simp
  | some t =>
    rw [Option.map_some]
    cases hp : s.phase t <;> simp [hp]

private theorem Admissible.system {s : AppSystem} {op : TaskOp} (h : s.Admissible (.task op)) :
    s.system.Admissible op := by
  cases op with
  | createTask task stack entryPoint cr3 => exact h.1
  | schedule voluntary => trivial
  | _ => exact h

/-- Everything a step can do. -/
theorem step_cases {s : AppSystem} (hs : s.Stacks) {o : AppOp} (ha : s.Admissible o) :
    s.Quiet o ∨
    (∃ task stack entryPoint cr3, o = .task (.createTask task stack entryPoint cr3) ∧
      task ≠ 0 ∧ stack ≠ 0 ∧ task ∉ s.system.live ∧
      ∀ p ∈ s.system.live, StackApart (s.tasks.stack p).1 stack) ∨
    (∃ t sp r, o = .appTaskEntry sp r ∧ s.current = some t ∧ startedBy (s, o) = some t ∧
      s.step o = { s with
        context := { s.context with kernelStackPtr := s.stackTop t }
        phase := Function.update s.phase t (.user sp r) }) ∨
    (∃ t rsp r, o = .syscallEntry rsp r ∧ s.current = some t ∧ s.phase t ≠ .kernel ∧
      s.step o = { s with
        context := { s.context with userStackPtr := rsp }
        phase := Function.update s.phase t (.syscall s.context.kernelStackPtr)
        memory := pushAll s.memory s.context.kernelStackPtr r.pushed }) ∨
    (∃ addr value t top limit, o = .kernelWrite addr value ∧ s.current = some t ∧
      s.workingStack t = some (top, limit) ∧ top ≤ addr + kKernelStackSize ∧ addr + 8 ≤ limit) ∨
    ∃ t top r, o = .sysret ∧ s.current = some t ∧ s.phase t = .syscall top ∧
      s.step o =
        { s with phase := Function.update s.phase t (.user s.context.userStackPtr r) } := by
  cases o with
  | task op =>
    by_cases hop : ∃ task stack entryPoint cr3, op = .createTask task stack entryPoint cr3
    · obtain ⟨task, stack, entryPoint, cr3, rfl⟩ := hop
      by_cases hnull : task = 0 ∨ stack = 0
      · have he : s.step (.task (.createTask task stack entryPoint cr3)) = s := if_pos hnull
        refine Or.inl ⟨?_, ?_, ?_, ?_, rfl, rfl, by simp⟩ <;> rw [he]
        exact Retains.refl s
      · rw [not_or] at hnull
        exact Or.inr (Or.inl ⟨task, stack, entryPoint, cr3, rfl, hnull.1, hnull.2, ha.1, ha.2⟩)
    · have hop' : ∀ task stack entryPoint cr3, op ≠ .createTask task stack entryPoint cr3 :=
        fun task stack entryPoint cr3 hc => hop ⟨task, stack, entryPoint, cr3, hc⟩
      refine Or.inl ⟨?_, ?_, ?_, ?_, rfl, rfl, by simp⟩ <;> rw [step_task_of_ne s hop']
      exact retains_task s op hop' ha.system
  | appTaskEntry sp r =>
    obtain ⟨t, hc, -⟩ := Option.map_eq_some_iff.mp ha
    by_cases happ : (s.tasks.task t).isApp = true
    · refine Or.inr (Or.inr (Or.inl ⟨t, sp, r, rfl, hc, ?_, ?_⟩))
      · simp [startedBy, hc, happ]
      · simp only [step, hc, happ, if_true]
    · have hlive := hs.current_live hc
      have he : s.step (.appTaskEntry sp r) =
          { s with system := (s.system.step (.terminate t)).step (.schedule false) } := by
        simp only [step, hc, happ, Bool.false_eq_true, if_false]
      have hterm := retains_task s (.terminate t) (by simp) hlive
      have hsched := retains_task { s with system := s.system.step (.terminate t) }
        (.schedule false) (by simp) trivial
      refine Or.inl ⟨?_, ?_, ?_, ?_, by simp [startedBy, hc, happ], rfl, by simp⟩ <;> rw [he]
      exact ⟨fun h => hsched.reachable (hterm.reachable h),
        fun p hp => hterm.live p (hsched.live p hp), hsched.stack.trans hterm.stack⟩
  | syscallEntry rsp r =>
    obtain ⟨t, rsp', r', hc, hphase⟩ := inUserMode_iff.mp ha
    refine Or.inr (Or.inr (Or.inr (Or.inl ⟨t, rsp, r, rfl, hc, by simp [hphase], ?_⟩)))
    simp only [step, hc]
  | kernelWrite addr value =>
    obtain ⟨⟨top, limit⟩, hstack, hlo, hhi⟩ := ha
    obtain ⟨t, hc, hw⟩ := Option.bind_eq_some_iff.mp hstack
    exact Or.inr (Or.inr (Or.inr (Or.inr (Or.inl
      ⟨addr, value, t, top, limit, rfl, hc, hw, hlo, hhi⟩))))
  | sysret =>
    obtain ⟨t, top, hc, hphase⟩ := inSyscall_iff.mp ha
    refine Or.inr (Or.inr (Or.inr (Or.inr (Or.inr ⟨t, top,
      .pop s.memory (top - syscallFrameSize), rfl, hc, hphase, ?_⟩))))
    simp only [step, hc, hphase]

/-! ## Which kernel stack is loaded -/

private theorem lastStarted_cons (x : AppSystem × AppOp) (past : List (AppSystem × AppOp)) :
    lastStarted (x :: past) = (startedBy x).or (lastStarted past) := by
  rw [lastStarted, List.findSome?_cons]
  cases startedBy x <;> rfl

private theorem retains_of_system_eq {s s' : AppSystem} (h : s'.system = s.system) :
    s.Retains s' where
  reachable := fun hr => h ▸ hr
  live := fun _ hp => h ▸ hp
  stack := by simp only [tasks, h]

section Create

variable {s : AppSystem} {task stack entryPoint cr3 : Nat} (htask : task ≠ 0) (hstack : stack ≠ 0)

include htask hstack

private theorem step_create : s.step (.task (.createTask task stack entryPoint cr3)) =
    { s with
      system := s.system.step (.createTask task stack entryPoint cr3)
      phase := Function.update s.phase task .kernel
      memory := clearStack s.memory stack entryPoint } := by
  have hnull : ¬(task = 0 ∨ stack = 0) := not_or.mpr ⟨htask, hstack⟩
  simp only [step, if_neg hnull]

private theorem live_create :
    (s.step (.task (.createTask task stack entryPoint cr3))).system.live =
      task :: s.system.live := by
  rw [step_create htask hstack]
  simp [TaskSystem.step, TaskManager.createTask, htask, hstack]

private theorem stack_create :
    (s.step (.task (.createTask task stack entryPoint cr3))).tasks.stack =
      Function.update s.tasks.stack task (stack, kKernelStackSize) := by
  rw [step_create htask hstack]
  funext q
  by_cases hq : q = task
  · subst hq
    simp [tasks, TaskSystem.step, TaskManager.createTask, htask, hstack, TaskManager.stack,
      TaskManager.newTask]
  · simp [tasks, TaskSystem.step, TaskManager.createTask, htask, hstack, TaskManager.stack, hq]

end Create

/-- The stacks stay apart under every step. -/
theorem Stacks.step {s : AppSystem} (h : s.Stacks) {o : AppOp} (ha : s.Admissible o) :
    (s.step o).Stacks := by
  rcases step_cases h ha with hq | ⟨task, stack, entryPoint, cr3, rfl, htask, hstack, hnew, hap⟩ |
    ⟨t, sp, r, rfl, hc, -, he⟩ | ⟨t, rsp, r, rfl, hc, -, he⟩ |
    ⟨addr, value, t, top, limit, rfl, -⟩ | ⟨t, top, r, rfl, hc, hp, he⟩
  · exact h.retain hq.retains
  · have hold {p : TaskPtr} (hp : p ∈ s.system.live) :
        (s.step (.task (.createTask task stack entryPoint cr3))).tasks.stack p =
          s.tasks.stack p := by
      rw [stack_create htask hstack, Function.update_of_ne (ne_of_mem_of_not_mem hp hnew)]
    have hself : (s.step (.task (.createTask task stack entryPoint cr3))).tasks.stack task =
        (stack, kKernelStackSize) := by
      rw [stack_create htask hstack, Function.update_self]
    refine ⟨?_, fun p hp => ?_, fun p hp q hq hne => ?_⟩
    · rw [step_create htask hstack]
      exact h.reachable.step _ ha.1
    · rw [live_create htask hstack] at hp
      rcases List.mem_cons.mp hp with rfl | hp
      · rw [hself]
      · rw [hold hp]
        exact h.size p hp
    · rw [live_create htask hstack] at hp hq
      rcases List.mem_cons.mp hp with rfl | hp'
      · rcases List.mem_cons.mp hq with rfl | hq'
        · exact absurd rfl hne
        · rw [hself, hold hq']
          exact (hap q hq').symm
      · rcases List.mem_cons.mp hq with rfl | hq'
        · rw [hself, hold hp']
          exact hap p hp'
        · rw [hold hp', hold hq']
          exact h.apart p hp' q hq' hne
  · exact h.retain (retains_of_system_eq (by rw [he]))
  · exact h.retain (retains_of_system_eq (by rw [he]))
  · exact h.retain (retains_of_system_eq rfl)
  · exact h.retain (retains_of_system_eq (by rw [he]))

/-- The shared kernel stack pointer names the stack of the task that started last. -/
structure StackInv (past : List (AppSystem × AppOp)) (s : AppSystem) : Prop where
  kernelStacks : s.Stacks
  started : ∀ p ∈ s.system.live, s.phase p ≠ .kernel →
    (lastStarted past = some p ↔ s.context.kernelStackPtr = s.stackTop p)

theorem StackInv.step {past : List (AppSystem × AppOp)} {s : AppSystem} (h : StackInv past s)
    {o : AppOp} (ha : s.Admissible o) : StackInv ((s, o) :: past) (s.step o) := by
  refine ⟨h.kernelStacks.step ha, fun p hp hphase => ?_⟩
  rw [lastStarted_cons]
  rcases step_cases h.kernelStacks ha with hq |
    ⟨task, stack, entryPoint, cr3, rfl, htask, hstack, hnew, -⟩ |
    ⟨t, sp, r, rfl, hc, hst, he⟩ | ⟨t, rsp, r, rfl, hc, hk, he⟩ |
    ⟨addr, value, t, top, limit, rfl, -⟩ | ⟨t, top, r, rfl, hc, ht, he⟩
  · rw [hq.started, Option.none_or, hq.context]
    rw [hq.phase] at hphase
    simpa only [stackTop, TaskManager.stackTop, hq.retains.stack] using
      h.started p (hq.retains.live p hp) hphase
  · -- The new task is still in kernel code; the others keep their stacks.
    rw [live_create htask hstack] at hp
    have hpt : p ≠ task := by
      rintro rfl
      rw [step_create htask hstack] at hphase
      exact hphase (Function.update_self ..)
    have hlive := (List.mem_cons.mp hp).resolve_left hpt
    have hph : s.phase p ≠ .kernel := by
      rw [step_create htask hstack] at hphase
      simpa only [Function.update_of_ne hpt] using hphase
    have hstart := h.started p hlive hph
    simp only [stackTop, TaskManager.stackTop, stack_create htask hstack,
      Function.update_of_ne hpt]
    rw [step_create htask hstack]
    exact hstart
  · -- The task that starts claims the pointer; every other stack has another top.
    rw [hst, Option.some_or, he]
    rw [he] at hp
    by_cases hpt : p = t
    · subst hpt
      exact ⟨fun _ => rfl, fun _ => rfl⟩
    · refine ⟨fun hs => absurd (Option.some.inj hs).symm hpt, fun hs => ?_⟩
      exact absurd hs (h.kernelStacks.stackTop_ne (h.kernelStacks.current_live hc) hp (Ne.symm hpt))
  · rw [he] at hp hphase ⊢
    by_cases hpt : p = t
    · subst hpt
      exact h.started p hp hk
    · simp only [Function.update_of_ne hpt] at hphase
      exact h.started p hp hphase
  · exact h.started p hp hphase
  · rw [he] at hp hphase ⊢
    by_cases hpt : p = t
    · subst hpt
      exact h.started p hp (by simp [ht])
    · simp only [Function.update_of_ne hpt] at hphase
      exact h.started p hp hphase

theorem StackInv.start {s : AppSystem} (h : s.Start) : StackInv [] s := by
  obtain ⟨hlive, task, hsched⟩ := h
  have hsys : s.system = ⟨⟨TaskManager.initializeTasks task, false, 0⟩, []⟩ := by
    rw [← hsched, ← hlive]
  refine ⟨⟨hsys ▸ .start task, ?_, ?_⟩, ?_⟩ <;> simp [hlive]

/-- A `SyscallEntry` loads the top of the stack of the task that executes it. -/
def LoadsOwnStack (x : AppSystem × AppOp) : Prop :=
  ∀ t rsp r, x.2 = .syscallEntry rsp r → x.1.current = some t →
    x.1.context.kernelStackPtr = x.1.stackTop t

/-- The step leaves the kernel stack of every other task inside a system call as it is. -/
def KeepsSuspendedStacks (x : AppSystem × AppOp) : Prop :=
  ∀ u ∈ x.1.system.live, x.1.current ≠ some u → (∃ top, x.1.phase u = .syscall top) →
    ∀ a, (x.1.tasks.stack u).1 ≤ a → a < x.1.stackTop u → (x.1.step x.2).memory a = x.1.memory a

/-- A `SyscallEntry` is executed by the application task that started last. -/
def EntersAsLastStarted (past : List (AppSystem × AppOp)) (x : AppSystem × AppOp) : Prop :=
  ∀ t rsp r, x.2 = .syscallEntry rsp r → x.1.current = some t → lastStarted past = some t

/-- Tasks inside a system call are on their own stacks. -/
def OwnStacks (s : AppSystem) : Prop :=
  ∀ p ∈ s.system.live, ∀ top, s.phase p = .syscall top → top = s.stackTop p

private theorem pushAll_of_outside (memory : Nat → Nat) (rsp : Nat) (ws : List Nat) {a : Nat}
    (hrsp : 8 * ws.length ≤ rsp) (ha : a + 8 * ws.length < rsp ∨ rsp ≤ a) :
    pushAll memory rsp ws a = memory a := by
  induction ws generalizing memory rsp with
  | nil => rfl
  | cons w ws ih =>
    simp only [List.length_cons] at hrsp ha
    have hne : a ≠ rsp - 8 := by omega
    rw [pushAll, ih _ _ (by omega) (by omega), Function.update_of_ne hne]

/-- Loading one's own stack is the same as having started last. -/
private theorem loads_iff {past : List (AppSystem × AppOp)} {s : AppSystem} {o : AppOp}
    (h : StackInv past s) (ha : s.Admissible o) :
    LoadsOwnStack (s, o) ↔ EntersAsLastStarted past (s, o) := by
  have hentry {t : TaskPtr} {rsp : Nat} {r : UserRegisters} (ho : o = .syscallEntry rsp r)
      (hc : s.current = some t) :
      lastStarted past = some t ↔ s.context.kernelStackPtr = s.stackTop t := by
    subst ho
    obtain ⟨t', rsp', r', hc', hphase⟩ := inUserMode_iff.mp ha
    obtain rfl := Option.some.inj (hc.symm.trans hc')
    exact h.started t (h.kernelStacks.current_live hc) (by simp [hphase])
  exact ⟨fun hl t rsp r ho hc => (hentry ho hc).mpr (hl t rsp r ho hc),
    fun hl t rsp r ho hc => (hentry ho hc).mp (hl t rsp r ho hc)⟩

private theorem OwnStacks.step {past : List (AppSystem × AppOp)} {s : AppSystem} {o : AppOp}
    (h : s.OwnStacks) (hi : StackInv past s) (ha : s.Admissible o)
    (hc : EntersAsLastStarted past (s, o)) : (s.step o).OwnStacks := by
  intro p hp top hphase
  rcases step_cases hi.kernelStacks ha with hq |
    ⟨task, stack, entryPoint, cr3, rfl, htask, hstack, hnew, -⟩ |
    ⟨t, sp, r, rfl, hcur, hst, he⟩ | ⟨t, rsp, r, rfl, hcur, hk, he⟩ |
    ⟨addr, value, t, top', limit, rfl, -⟩ | ⟨t, top', r, rfl, hcur, ht, he⟩
  · rw [hq.phase] at hphase
    rw [stackTop, TaskManager.stackTop, hq.retains.stack]
    exact h p (hq.retains.live p hp) top hphase
  · rw [live_create htask hstack] at hp
    have hpt : p ≠ task := by
      rintro rfl
      rw [step_create htask hstack] at hphase
      simp at hphase
    rw [step_create htask hstack] at hphase
    simp only [Function.update_of_ne hpt] at hphase
    rw [stackTop, TaskManager.stackTop, stack_create htask hstack, Function.update_of_ne hpt]
    exact h p ((List.mem_cons.mp hp).resolve_left hpt) top hphase
  · rw [he] at hp hphase ⊢
    by_cases hpt : p = t
    · subst hpt
      simp at hphase
    · simp only [Function.update_of_ne hpt] at hphase
      exact h p hp top hphase
  · have hown := (loads_iff hi ha).mpr hc t rsp r rfl hcur
    rw [he] at hp hphase ⊢
    by_cases hpt : p = t
    · subst hpt
      simp only [Function.update_self, Phase.syscall.injEq] at hphase
      exact hphase.symm.trans hown
    · simp only [Function.update_of_ne hpt] at hphase
      exact h p hp top hphase
  · exact h p hp top hphase
  · rw [he] at hp hphase ⊢
    by_cases hpt : p = t
    · subst hpt
      simp at hphase
    · simp only [Function.update_of_ne hpt] at hphase
      exact h p hp top hphase

/-- While tasks are on their own stacks, a step that keeps them there writes no other stack. -/
private theorem keeps_of_own {past : List (AppSystem × AppOp)} {s : AppSystem} {o : AppOp}
    (h : s.OwnStacks) (hi : StackInv past s) (ha : s.Admissible o)
    (hc : EntersAsLastStarted past (s, o)) : KeepsSuspendedStacks (s, o) := by
  intro u hu hcu hsys a hlo hhi
  rcases step_cases hi.kernelStacks ha with hq |
    ⟨task, stack, entryPoint, cr3, rfl, htask, hstack, hnew, hap⟩ |
    ⟨t, sp, r, rfl, hcur, hst, he⟩ | ⟨t, rsp, r, rfl, hcur, hk, he⟩ |
    ⟨addr, value, t, top, limit, rfl, hcur, hw, hlow, hhigh⟩ | ⟨t, top, r, rfl, hcur, ht, he⟩
  · exact congrFun hq.memory a
  · have hk : kKernelStackSize = 16384 := rfl
    have htop := hi.kernelStacks.stackTop_eq hu
    simp only at hlo hhi
    have hapart := hap u hu
    have hout : ¬(stack ≤ a ∧ a < stack + kKernelStackSize) := by
      rcases hapart with hap | hap <;> omega
    have hne : a ≠ (stack + kKernelStackSize) / 16 * 16 - 8 := by
      rcases hapart with hap | hap <;> omega
    simp only [step_create htask hstack, clearStack, Function.update_of_ne hne, if_neg hout]
  · simp only [he]
  · have hown := (loads_iff hi ha).mpr hc t rsp r rfl hcur
    have htl := hi.kernelStacks.current_live hcur
    have hne : t ≠ u := fun hc => hcu (hc ▸ hcur)
    have htop := hi.kernelStacks.stackTop_eq htl
    have htopu := hi.kernelStacks.stackTop_eq hu
    have hk : kKernelStackSize = 16384 := rfl
    have hlen : r.pushed.length = 14 := rfl
    simp only at hown hlo hhi
    simp only [he]
    refine pushAll_of_outside _ _ _ (by omega) ?_
    rcases hi.kernelStacks.apart t htl u hu hne with hap | hap <;> omega
  · have htl := hi.kernelStacks.current_live hcur
    have hne : t ≠ u := fun hc => hcu (hc ▸ hcur)
    have htop : top = s.stackTop t ∧ limit ≤ top := by
      unfold workingStack at hw
      split at hw
      · simp only [Option.some.injEq, Prod.mk.injEq] at hw
        omega
      · cases hw
      · next hphase =>
        simp only [Option.some.injEq, Prod.mk.injEq] at hw
        have := h t htl _ hphase
        omega
    exact Function.update_of_ne
      (hi.kernelStacks.outside htl hu hne (by omega) (by omega) hlo hhi) _ _
  · simp only [he]

/-- In every run, each `SyscallEntry` loads the top of its own task's kernel stack, and no
step overwrites the stack of another task inside a system call, exactly when each
`SyscallEntry` is executed by the application task that started last. -/
theorem syscall_stack_iff {run : List (AppSystem × AppOp)} {s : AppSystem} (h : Runs run s) :
    Throughout (fun _ x => LoadsOwnStack x ∧ KeepsSuspendedStacks x) run ↔
      Throughout EntersAsLastStarted run := by
  constructor
  · intro hp
    refine (h.throughout (I := StackInv) (fun s hs => StackInv.start hs) ?_ hp).1
    intro past s o hi ha hl
    exact ⟨(loads_iff hi ha).mp hl.1, hi.step ha⟩
  · intro hc
    refine (h.throughout (I := fun past s => StackInv past s ∧ s.OwnStacks) ?_ ?_ hc).1
    · intro s hs
      refine ⟨StackInv.start hs, fun p hp => ?_⟩
      rw [hs.1] at hp
      cases hp
    · rintro past s o ⟨hi, hown⟩ ha hl
      exact ⟨⟨(loads_iff hi ha).mpr hl, keeps_of_own hown hi ha hl⟩, hi.step ha,
        hown.step hi ha hl⟩

/-- The first task's second system call loads the stack of the task that started after it. -/
theorem syscall_stack_taken :
    ¬∀ run s, Runs run s →
      Throughout (fun _ x => LoadsOwnStack x ∧ KeepsSuspendedStacks x) run := by
  intro h
  have hload := (h _ _ secondCall_runs).1.1 0x1000 _ _ rfl (by decide +kernel)
  exact absurd hload (by decide +kernel)

/-- A single started task always loads its own stack. -/
theorem syscall_stack_iff_firstCall :
    Throughout (fun _ x => LoadsOwnStack x ∧ KeepsSuspendedStacks x)
      (record step [] bootSystem (createTwo ++ firstCall)).1 := by
  refine (syscall_stack_iff firstCall_runs).mpr ?_
  refine ⟨fun t rsp r _ hc => ?_, nofun, nofun, nofun, nofun, nofun, nofun, nofun, nofun, nofun,
    trivial⟩
  have hcur : some t = some 0x1000 := hc.symm.trans (by decide +kernel)
  rw [hcur]
  decide +kernel

/-! ## Which user stack pointer is restored -/

/-- A `sysret` gives the task the stack pointer it had at its last `SyscallEntry`. -/
def RestoresOwnPointer (past : List (AppSystem × AppOp)) (x : AppSystem × AppOp) : Prop :=
  x.2 = .sysret → ∀ t, x.1.current = some t →
    ∃ rsp r, entryOf t past = some rsp ∧ (x.1.step x.2).phase t = .user rsp r

/-- At a `sysret`, the last `SyscallEntry` of all tasks was the task's own, or was executed
with the same stack pointer as its own. -/
def NotOvertaken (past : List (AppSystem × AppOp)) (x : AppSystem × AppOp) : Prop :=
  x.2 = .sysret → ∀ t, x.1.current = some t →
    ∃ u rsp, lastEntry past = some (u, rsp) ∧ (u = t ∨ entryOf t past = some rsp)

private theorem lastEntry_cons (x : AppSystem × AppOp) (past : List (AppSystem × AppOp)) :
    lastEntry (x :: past) = (enteredBy x).or (lastEntry past) := by
  rw [lastEntry, List.findSome?_cons]
  cases enteredBy x <;> rfl

private theorem entryOf_cons (t : TaskPtr) (x : AppSystem × AppOp)
    (past : List (AppSystem × AppOp)) : entryOf t (x :: past) =
      (((enteredBy x).filter fun e => e.1 = t).map Prod.snd).or (entryOf t past) := by
  rw [entryOf, List.findSome?_cons]
  cases ((enteredBy x).filter fun e => e.1 = t).map Prod.snd <;> rfl

/-- The last entry of all, when it is the task's own, is its own last entry. -/
private theorem entryOf_of_lastEntry {t : TaskPtr} {rsp : Nat} {run : List (AppSystem × AppOp)}
    (h : lastEntry run = some (t, rsp)) : entryOf t run = some rsp := by
  induction run with
  | nil => cases h
  | cons x past ih =>
    rw [lastEntry_cons] at h
    rw [entryOf_cons]
    cases he : enteredBy x with
    | none =>
      rw [he] at h
      exact ih h
    | some e =>
      rw [he] at h
      obtain rfl := Option.some.inj h
      simp

/-- The shared user stack pointer is that of the last entry of all; a task inside a system
call has an entry. -/
structure PointerInv (past : List (AppSystem × AppOp)) (s : AppSystem) : Prop where
  kernelStacks : s.Stacks
  last : ∀ u rsp, lastEntry past = some (u, rsp) → s.context.userStackPtr = rsp
  entered : ∀ p ∈ s.system.live, ∀ top, s.phase p = .syscall top →
    (∃ rsp, entryOf p past = some rsp) ∧ ∃ e, lastEntry past = some e

theorem PointerInv.step {past : List (AppSystem × AppOp)} {s : AppSystem} (h : PointerInv past s)
    {o : AppOp} (ha : s.Admissible o) : PointerInv ((s, o) :: past) (s.step o) := by
  refine ⟨h.kernelStacks.step ha, ?_, ?_⟩
  · intro u rsp hlast
    rw [lastEntry_cons] at hlast
    rcases step_cases h.kernelStacks ha with hq |
      ⟨task, stack, entryPoint, cr3, rfl, htask, hstack, -⟩ |
      ⟨t, sp, r, rfl, hc, -, he⟩ | ⟨t, rsp', r, rfl, hc, -, he⟩ |
      ⟨addr, value, t, top, limit, rfl, -⟩ | ⟨t, top, r, rfl, hc, -, he⟩
    · rw [hq.entered, Option.none_or] at hlast
      rw [hq.context]
      exact h.last u rsp hlast
    · rw [step_create htask hstack]
      exact h.last u rsp hlast
    · rw [he]
      exact h.last u rsp hlast
    · rw [he]
      simp only [enteredBy, hc, Option.map_some, Option.some_or, Option.some.injEq,
        Prod.mk.injEq] at hlast
      exact hlast.2
    · exact h.last u rsp hlast
    · rw [he]
      exact h.last u rsp hlast
  · intro p hp top hphase
    have hkeep (hold : (∃ rsp, entryOf p past = some rsp) ∧ ∃ e, lastEntry past = some e) :
        (∃ rsp, entryOf p ((s, o) :: past) = some rsp) ∧
          ∃ e, lastEntry ((s, o) :: past) = some e := by
      obtain ⟨⟨rsp, hr⟩, e, he⟩ := hold
      rw [entryOf_cons, lastEntry_cons, hr, he]
      simp only [Option.or_some]
      exact ⟨⟨_, rfl⟩, _, rfl⟩
    rcases step_cases h.kernelStacks ha with hq |
      ⟨task, stack, entryPoint, cr3, rfl, htask, hstack, -⟩ |
      ⟨t, sp, r, rfl, hc, -, he⟩ | ⟨t, rsp', r, rfl, hc, -, he⟩ |
      ⟨addr, value, t, top', limit, rfl, -⟩ | ⟨t, top', r, rfl, hc, -, he⟩
    · rw [hq.phase] at hphase
      exact hkeep (h.entered p (hq.retains.live p hp) top hphase)
    · rw [live_create htask hstack] at hp
      rw [step_create htask hstack] at hphase
      by_cases hpt : p = task
      · subst hpt
        simp at hphase
      · simp only [Function.update_of_ne hpt] at hphase
        exact hkeep (h.entered p ((List.mem_cons.mp hp).resolve_left hpt) top hphase)
    · rw [he] at hp hphase
      by_cases hpt : p = t
      · subst hpt
        simp at hphase
      · simp only [Function.update_of_ne hpt] at hphase
        exact hkeep (h.entered p hp top hphase)
    · by_cases hpt : p = t
      · subst hpt
        rw [entryOf_cons, lastEntry_cons]
        simp [enteredBy, hc]
      · rw [he] at hp hphase
        simp only [Function.update_of_ne hpt] at hphase
        exact hkeep (h.entered p hp top hphase)
    · exact hkeep (h.entered p hp top hphase)
    · rw [he] at hp hphase
      by_cases hpt : p = t
      · subst hpt
        simp at hphase
      · simp only [Function.update_of_ne hpt] at hphase
        exact hkeep (h.entered p hp top hphase)

theorem PointerInv.start {s : AppSystem} (h : s.Start) : PointerInv [] s := by
  refine ⟨(StackInv.start h).kernelStacks, fun u rsp hl => ?_, fun p hp => ?_⟩
  · cases hl
  · rw [h.1] at hp
    cases hp

private theorem restores_iff {past : List (AppSystem × AppOp)} {s : AppSystem} {o : AppOp}
    (h : PointerInv past s) (ha : s.Admissible o) :
    RestoresOwnPointer past (s, o) ↔ NotOvertaken past (s, o) := by
  have hkey (ho : o = .sysret) (t : TaskPtr) (hc : s.current = some t) :
      (∃ rsp r, entryOf t past = some rsp ∧ (s.step o).phase t = .user rsp r) ↔
        ∃ u rsp, lastEntry past = some (u, rsp) ∧ (u = t ∨ entryOf t past = some rsp) := by
    subst ho
    obtain ⟨t', top, hc', hphase⟩ := inSyscall_iff.mp ha
    obtain rfl := Option.some.inj (hc.symm.trans hc')
    obtain ⟨⟨rsp, hentry⟩, ⟨u, last⟩, hlast⟩ :=
      h.entered t (h.kernelStacks.current_live hc) top hphase
    have hptr := h.last u last hlast
    have hnew : (s.step .sysret).phase t = .user s.context.userStackPtr
        (.pop s.memory (top - syscallFrameSize)) := by
      simp [step, hc, hphase]
    constructor
    · rintro ⟨rsp', r, hentry', hnew'⟩
      rw [hnew] at hnew'
      simp only [Phase.user.injEq] at hnew'
      exact ⟨u, last, hlast, Or.inr (by rw [hentry', ← hnew'.1, hptr])⟩
    · rintro ⟨u', last', hlast', hown⟩
      rw [hlast'] at hlast
      obtain ⟨rfl, rfl⟩ := Prod.mk.inj (Option.some.inj hlast)
      refine ⟨last', _, ?_, hptr ▸ hnew⟩
      rcases hown with rfl | hown
      · exact entryOf_of_lastEntry hlast'
      · exact hown
  exact ⟨fun hr ho t hc => (hkey ho t hc).mp (hr ho t hc),
    fun hn ho t hc => (hkey ho t hc).mpr (hn ho t hc)⟩

/-- In every run, each `sysret` restores the stack pointer with which its task entered the
system call exactly when no other task's `SyscallEntry`, with another stack pointer, came
last. -/
theorem user_stack_iff {run : List (AppSystem × AppOp)} {s : AppSystem} (h : Runs run s) :
    Throughout RestoresOwnPointer run ↔ Throughout NotOvertaken run :=
  h.throughout_iff (fun _ => PointerInv.start) (fun _ _ _ hi => hi.step)
    fun _ _ _ hi => restores_iff hi

/-- The second task enters a system call while the first is inside one: the first returns
with the second one's stack pointer. -/
theorem user_stack_overtaken :
    ¬∀ run s, Runs run s → Throughout RestoresOwnPointer run := by
  intro h
  obtain ⟨rsp, r, hentry, hphase⟩ :=
    (h _ _ firstReturn_runs).1 rfl 0x1000 (by decide +kernel)
  have hown : some rsp = some 0x6FFFFF00 := hentry.symm.trans (by decide +kernel)
  obtain rfl := Option.some.inj hown
  have hrsp := congrArg (Phase.rec (motive := fun _ => Nat) 0 (fun rsp _ => rsp) fun _ => 0) hphase
  change _ = 0x6FFFFF00 at hrsp
  exact absurd hrsp (by decide +kernel)

/-- A task that returns before any other enters gets its own stack pointer back. -/
theorem user_stack_iff_undisturbed :
    Throughout RestoresOwnPointer (record step [] bootSystem
      (createTwo ++ firstCall ++ [.sysret])).1 := by
  refine (user_stack_iff (bootSystem_runs.record (by decide +kernel))).mpr ?_
  refine ⟨fun _ t hc => ?_, nofun, nofun, nofun, nofun, nofun, nofun, nofun, nofun, nofun, nofun,
    trivial⟩
  have hcur : some t = some 0x1000 := hc.symm.trans (by decide +kernel)
  obtain rfl := Option.some.inj hcur
  exact ⟨0x1000, 0x6FFFFF00, by decide +kernel, Or.inl rfl⟩

end AppSystem

end Sylphia
