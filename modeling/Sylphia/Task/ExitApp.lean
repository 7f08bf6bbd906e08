import Sylphia.Task.SyscallHistory

/-!
# Leaving an application

`EnterUserMode` saves its kernel stack pointer in the one variable `g_kernel_rsp_save`, and
the `Exit` system call of any task ends in `ExitApp`, which reloads it. What is reloaded is
the stack pointer of the task that entered user mode last.
-/

namespace Sylphia

open Transition

/-- The tasks, `g_kernel_rsp_save`, and which tasks have entered user mode and not exited. -/
structure ExitSystem where
  system : TaskSystem
  kernelRspSave : Nat
  entered : TaskPtr → Bool

/-- A task manager or scheduler operation, or a step of the current task. -/
inductive ExitOp
  | task (op : TaskOp)
  /-- `AppTaskEntry` up to user mode; `rsp` is the kernel stack pointer behind the pushes of
  `EnterUserMode`. -/
  | appTaskEntry (rsp : Nat)
  /-- The `Exit` system call. -/
  | exit

namespace ExitSystem

/-- The static members of the task manager. -/
def tasks (s : ExitSystem) : TaskManager := s.system.scheduler.tasks

/-- The task that is executing. -/
def current (s : ExitSystem) : Option TaskPtr := s.tasks.currentTask

/-- An address inside the kernel stack of a task. -/
def InStack (s : ExitSystem) (p : TaskPtr) (rsp : Nat) : Prop :=
  (s.tasks.stack p).1 ≤ rsp ∧ rsp < s.tasks.stackTop p

instance (s : ExitSystem) (p : TaskPtr) (rsp : Nat) : Decidable (s.InStack p rsp) :=
  inferInstanceAs (Decidable (_ ∧ _))

/-- What `Exit` does to the tasks: the task leaves the queue and is terminated, and nothing
is current until the next switch. Its control block and stack are not given back. -/
def exitTask (s : TaskSystem) (t : TaskPtr) : TaskSystem :=
  s.onTasks fun tm => ((tm.removeFromReadyQueue t).setState t .terminated).setCurrentTask none

/-- One step; `s.current` is the task that takes it. -/
def step (s : ExitSystem) : ExitOp → ExitSystem
  | .task (.createTask task stack entryPoint cr3) =>
    if task = 0 ∨ stack = 0 then s
    else
      { s with
        system := s.system.step (.createTask task stack entryPoint cr3)
        entered := Function.update s.entered task false }
  | .task op => { s with system := s.system.step op }
  | .appTaskEntry rsp =>
    match s.current with
    | some t =>
      if (s.tasks.task t).isApp then
        { s with kernelRspSave := rsp, entered := Function.update s.entered t true }
      else { s with system := (s.system.step (.terminate t)).step (.schedule false) }
    | none => { s with system := s.system.step (.schedule false) }
  | .exit =>
    match s.current with
    | some t =>
      if (s.tasks.task t).isApp then
        { s with system := exitTask s.system t, entered := Function.update s.entered t false }
      else s
    | none => s

/-- The stack pointer that `ExitApp` reloads. -/
def exitApp (s : ExitSystem) : Nat := s.kernelRspSave

/-- When a step can be taken. New stacks come from the allocator, a task enters user mode on
its own kernel stack, and leaves it by a system call. -/
def Admissible (s : ExitSystem) : ExitOp → Prop
  | .task (.createTask task stack entryPoint cr3) =>
    s.system.Admissible (.createTask task stack entryPoint cr3) ∧
      ∀ p ∈ s.system.live, AppSystem.StackApart (s.tasks.stack p).1 stack
  | .task op => s.system.Admissible op
  | .appTaskEntry rsp => ∃ t ∈ s.current, s.entered t = false ∧ s.InStack t rsp
  | .exit => ∃ t ∈ s.current, s.entered t = true

instance (s : ExitSystem) : (o : ExitOp) → Decidable (s.Admissible o)
  | .task (.createTask _ stack _ _) => inferInstanceAs (Decidable (_ ∧ ∀ p ∈ s.system.live,
      AppSystem.StackApart (s.tasks.stack p).1 stack))
  | .task (.schedule _) | .task (.setEnabled _) => inferInstanceAs (Decidable True)
  | .task (.markApp p) | .task (.addToReadyQueue p) | .task (.removeFromReadyQueue p)
  | .task (.blockTask p) | .task (.wakeTask p) | .task (.terminate p) =>
    inferInstanceAs (Decidable (p ∈ s.system.live))
  | .appTaskEntry rsp =>
    inferInstanceAs (Decidable (∃ t ∈ s.current, s.entered t = false ∧ s.InStack t rsp))
  | .exit => inferInstanceAs (Decidable (∃ t ∈ s.current, s.entered t = true))

/-- After the kernel's initialisation there are no tasks yet. -/
def Start (s : ExitSystem) : Prop :=
  s.system.live = [] ∧ ∃ task, s.system.scheduler = ⟨TaskManager.initializeTasks task, false, 0⟩

/-- The runs of the system. -/
abbrev Runs : List (ExitSystem × ExitOp) → ExitSystem → Prop := Run step Admissible Start

/-- The task that enters user mode in the step, with the stack pointer it saves. -/
def savedIn (x : ExitSystem × ExitOp) : Option (TaskPtr × Nat) :=
  match x.2 with
  | .appTaskEntry rsp =>
    (x.1.current.filter fun t => (x.1.tasks.task t).isApp).map fun t => (t, rsp)
  | _ => none

/-- The task that entered user mode last. -/
def lastEntered (run : List (ExitSystem × ExitOp)) : Option TaskPtr :=
  (run.findSome? savedIn).map Prod.fst

/-- The stack pointer that the task's own `EnterUserMode` saved. -/
def savedBy (t : TaskPtr) (run : List (ExitSystem × ExitOp)) : Option Nat :=
  run.findSome? fun x => ((savedIn x).filter fun e => e.1 = t).map Prod.snd

/-- The `ExitApp` of a task reloads the stack pointer that its own `EnterUserMode` saved, in
its own kernel stack. -/
def ReloadsOwnStack (past : List (ExitSystem × ExitOp)) (x : ExitSystem × ExitOp) : Prop :=
  x.2 = .exit → ∀ t, x.1.current = some t →
    savedBy t past = some x.1.exitApp ∧ x.1.InStack t x.1.exitApp

/-- A task exits as the one that entered user mode last. -/
def ExitsAsLastEntered (past : List (ExitSystem × ExitOp)) (x : ExitSystem × ExitOp) : Prop :=
  x.2 = .exit → ∀ t, x.1.current = some t → lastEntered past = some t

/-! ## The saved stack pointer -/

/-- Kernel stacks of live tasks do not overlap; a task in user mode has saved a pointer into
its stack, which is the one in `g_kernel_rsp_save` if it entered last, and which no other
task's stack contains. -/
structure SaveInv (past : List (ExitSystem × ExitOp)) (s : ExitSystem) : Prop where
  tasks : ∃ l, s.system.Inv l
  size : ∀ p ∈ s.system.live, (s.tasks.stack p).2 = kKernelStackSize
  apart : ∀ p ∈ s.system.live, ∀ q ∈ s.system.live, p ≠ q →
    AppSystem.StackApart (s.tasks.stack p).1 (s.tasks.stack q).1
  saved : ∀ p ∈ s.system.live, s.entered p = true → ∃ rsp, savedBy p past = some rsp ∧
    s.InStack p rsp ∧ (lastEntered past = some p → s.kernelRspSave = rsp)
  other : ∀ p ∈ s.system.live, s.entered p = true → lastEntered past ≠ some p →
    ¬ s.InStack p s.kernelRspSave

namespace SaveInv

variable {past : List (ExitSystem × ExitOp)} {s : ExitSystem} {o : ExitOp}

theorem current_live (h : SaveInv past s) {t : TaskPtr} (hc : s.current = some t) :
    t ∈ s.system.live := by
  obtain ⟨l, hl⟩ := h.tasks
  exact hl.tasks.current t hc

/-- A step that saves nothing, moves no stack and lets no task enter user mode. -/
theorem quiet (h : SaveInv past s) {s' : ExitSystem} (hsaved : savedIn (s, o) = none)
    (htasks : ∃ l, s'.system.Inv l) (hlive : ∀ p ∈ s'.system.live, p ∈ s.system.live)
    (hstack : s'.tasks.stack = s.tasks.stack)
    (hentered : ∀ p, s'.entered p = true → s.entered p = true)
    (hsave : s'.kernelRspSave = s.kernelRspSave) : SaveInv ((s, o) :: past) s' := by
  have hin (p : TaskPtr) (rsp : Nat) : s'.InStack p rsp ↔ s.InStack p rsp := by
    simp only [InStack, TaskManager.stackTop, hstack]
  have hby (p : TaskPtr) : savedBy p ((s, o) :: past) = savedBy p past := by
    simp [savedBy, hsaved]
  have hlast : lastEntered ((s, o) :: past) = lastEntered past := by
    simp [lastEntered, hsaved]
  refine ⟨htasks, ?_, ?_, ?_, ?_⟩
  · intro p hp
    rw [hstack]
    exact h.size p (hlive p hp)
  · intro p hp q hq hne
    rw [hstack]
    exact h.apart p (hlive p hp) q (hlive q hq) hne
  · intro p hp he
    simp only [hin, hby, hlast, hsave]
    exact h.saved p (hlive p hp) (hentered p he)
  · intro p hp he
    rw [hlast, hin, hsave]
    exact h.other p (hlive p hp) (hentered p he)

/-- A new task is not in user mode, and its stack is away from the others. -/
theorem create (h : SaveInv past s) {task stack entryPoint cr3 : Nat} (htask : task ≠ 0)
    (hstack : stack ≠ 0)
    (ha : s.Admissible (.task (.createTask task stack entryPoint cr3))) :
    SaveInv ((s, .task (.createTask task stack entryPoint cr3)) :: past)
      (s.step (.task (.createTask task stack entryPoint cr3))) := by
  obtain ⟨l, hl⟩ := h.tasks
  have hnull : ¬ (task = 0 ∨ stack = 0) := not_or.mpr ⟨htask, hstack⟩
  have hstep : s.step (.task (.createTask task stack entryPoint cr3)) =
      { s with
        system := s.system.step (.createTask task stack entryPoint cr3)
        entered := Function.update s.entered task false } := by
    simp only [step, if_neg hnull]
  have hlive : (s.system.step (.createTask task stack entryPoint cr3)).live =
      task :: s.system.live := by
    simp [TaskSystem.step, TaskManager.createTask, htask, hstack]
  have hself : (s.system.step (.createTask task stack entryPoint cr3)).scheduler.tasks.stack task =
      (stack, kKernelStackSize) := by
    simp [TaskSystem.step, TaskManager.createTask, htask, hstack, TaskManager.stack,
      TaskManager.newTask]
  have hold {p : TaskPtr} (hp : p ≠ task) :
      (s.system.step (.createTask task stack entryPoint cr3)).scheduler.tasks.stack p =
        s.tasks.stack p := by
    simp [ExitSystem.tasks, TaskSystem.step, TaskManager.createTask, htask, hstack,
      TaskManager.stack, hp]
  have hne {p : TaskPtr} (hp : p ∈ s.system.live) : p ≠ task := ne_of_mem_of_not_mem hp ha.1
  rw [hstep]
  -- A task in user mode is one of the old ones, where nothing has changed.
  have huser {p : TaskPtr} (hp : p ∈ task :: s.system.live)
      (he : Function.update s.entered task false p = true) :
      p ∈ s.system.live ∧ s.entered p = true ∧ p ≠ task := by
    have hpt : p ≠ task := by
      rintro rfl
      simp at he
    rw [Function.update_of_ne hpt] at he
    exact ⟨(List.mem_cons.mp hp).resolve_left hpt, he, hpt⟩
  have hin {p : TaskPtr} (hp : p ≠ task) (rsp : Nat) :
      InStack { s with
        system := s.system.step (.createTask task stack entryPoint cr3)
        entered := Function.update s.entered task false } p rsp ↔ s.InStack p rsp := by
    simp only [InStack, TaskManager.stackTop, ExitSystem.tasks, hold hp]
  refine ⟨hl.step ha.1, ?_, ?_, ?_, ?_⟩
  · intro p hp
    rw [hlive] at hp
    rcases List.mem_cons.mp hp with rfl | hp
    · exact congrArg Prod.snd hself
    · exact (congrArg Prod.snd (hold (hne hp))).trans (h.size p hp)
  · intro p hp q hq hpq
    rw [hlive] at hp hq
    simp only [ExitSystem.tasks]
    rcases List.mem_cons.mp hp with rfl | hp'
    · rcases List.mem_cons.mp hq with rfl | hq'
      · exact absurd rfl hpq
      · rw [hself, hold (hne hq')]
        exact (ha.2 q hq').symm
    · rcases List.mem_cons.mp hq with rfl | hq'
      · rw [hself, hold (hne hp')]
        exact ha.2 p hp'
      · rw [hold (hne hp'), hold (hne hq')]
        exact h.apart p hp' q hq' hpq
  · intro p hp he
    rw [hlive] at hp
    obtain ⟨hp', he', hpt⟩ := huser hp he
    simp only [hin hpt]
    exact h.saved p hp' he'
  · intro p hp he hlast
    rw [hlive] at hp
    obtain ⟨hp', he', hpt⟩ := huser hp he
    rw [hin hpt]
    exact h.other p hp' he' hlast

/-- The task that enters user mode takes over the variable. -/
theorem enter (h : SaveInv past s) {t : TaskPtr} {rsp : Nat} (hc : s.current = some t)
    (happ : (s.tasks.task t).isApp = true) (hrsp : s.InStack t rsp) :
    SaveInv ((s, .appTaskEntry rsp) :: past) (s.step (.appTaskEntry rsp)) := by
  have hstep : s.step (.appTaskEntry rsp) =
      { s with kernelRspSave := rsp, entered := Function.update s.entered t true } := by
    simp only [step, hc, happ, if_true]
  have hsavedIn : savedIn (s, .appTaskEntry rsp) = some (t, rsp) := by
    simp [savedIn, hc, happ]
  have hlast : lastEntered ((s, .appTaskEntry rsp) :: past) = some t := by
    simp [lastEntered, hsavedIn]
  have hself : savedBy t ((s, .appTaskEntry rsp) :: past) = some rsp := by
    simp [savedBy, hsavedIn]
  have hother {p : TaskPtr} (hp : p ≠ t) :
      savedBy p ((s, .appTaskEntry rsp) :: past) = savedBy p past := by
    simp [savedBy, hsavedIn, Ne.symm hp]
  have hlive := h.current_live hc
  rw [hstep]
  refine ⟨h.tasks, h.size, h.apart, ?_, ?_⟩
  · intro p hp he
    by_cases hpt : p = t
    · subst hpt
      exact ⟨rsp, hself, hrsp, fun _ => rfl⟩
    · simp only [Function.update_of_ne hpt] at he
      obtain ⟨v, hv, hin, -⟩ := h.saved p hp he
      refine ⟨v, (hother hpt).trans hv, hin, fun hl => ?_⟩
      rw [hlast] at hl
      exact absurd (Option.some.inj hl).symm hpt
  · intro p hp _ hl hin
    have hpt : t ≠ p := by
      rintro rfl
      exact hl hlast
    have hsize := h.size t hlive
    have hsize' := h.size p hp
    obtain ⟨hlo, hhi⟩ := hrsp
    obtain ⟨hlo', hhi'⟩ := hin
    have hap := h.apart t hlive p hp hpt
    simp only [TaskManager.stackTop, ExitSystem.tasks] at hlo hhi hlo' hhi' hsize hsize' hap
    rcases hap with hap | hap <;> omega

/-- `Exit` takes the task out of the queue and out of user mode. -/
theorem exit (h : SaveInv past s) : SaveInv ((s, .exit) :: past) (s.step .exit) := by
  have hquiet : SaveInv ((s, .exit) :: past) s :=
    h.quiet rfl h.tasks (fun _ hp => hp) rfl (fun _ he => he) rfl
  cases hc : s.current with
  | none =>
    have hstep : s.step .exit = s := by simp only [step, hc]
    rw [hstep]
    exact hquiet
  | some t =>
    by_cases happ : (s.tasks.task t).isApp = true
    · have hstep : s.step .exit =
          { s with
            system := exitTask s.system t
            entered := Function.update s.entered t false } := by
        simp only [step, hc, happ, if_true]
      rw [hstep]
      refine h.quiet rfl ?_ (fun _ hp => hp) ?_ ?_ rfl
      · obtain ⟨l, hl⟩ := h.tasks
        have hlive := h.current_live hc
        have hrest := (hl.tasks.remove hlive).setState (v := .terminated)
          hl.tasks.queue.nodup.not_mem_erase (by decide)
        refine ⟨l.erase t, hl.live, ⟨hrest.queue.nodup, hrest.queue.forward, hrest.queue.backward,
          hrest.queue.outside, hrest.queue.queued⟩, fun q hq hr => ?_, nofun⟩
        have hcur := hrest.running q hq hr
        rw [TaskManager.currentTask_setState, TaskManager.currentTask_remove] at hcur
        obtain rfl : t = q := Option.some.inj (hc.symm.trans hcur)
        have hstate : ((s.tasks.removeFromReadyQueue t).setState t .terminated).state t =
            .terminated := by simp
        exact absurd (hstate.symm.trans hr) (by decide)
      · have hremove : ((s.tasks.removeFromReadyQueue t).setState t .terminated).stack =
            s.tasks.stack := by simp
        exact hremove
      · intro p he
        by_cases hpt : p = t
        · subst hpt
          simp at he
        · simpa [hpt] using he
    · have hstep : s.step .exit = s := by
        simp only [step, hc, happ, Bool.false_eq_true, if_false]
      rw [hstep]
      exact hquiet

private theorem step_of_ne {op : TaskOp}
    (hop : ∀ task stack entryPoint cr3, op ≠ .createTask task stack entryPoint cr3) :
    s.step (.task op) = { s with system := s.system.step op } := by
  cases op with
  | createTask task stack entryPoint cr3 => exact absurd rfl (hop task stack entryPoint cr3)
  | _ => rfl

theorem step (h : SaveInv past s) (ha : s.Admissible o) :
    SaveInv ((s, o) :: past) (s.step o) := by
  obtain ⟨l, hl⟩ := h.tasks
  cases o with
  | task op =>
    by_cases hop : ∃ task stack entryPoint cr3, op = .createTask task stack entryPoint cr3
    · obtain ⟨task, stack, entryPoint, cr3, rfl⟩ := hop
      by_cases hnull : task = 0 ∨ stack = 0
      · have hstep : s.step (.task (.createTask task stack entryPoint cr3)) = s := if_pos hnull
        rw [hstep]
        exact h.quiet rfl h.tasks (fun _ hp => hp) rfl (fun _ he => he) rfl
      · rw [not_or] at hnull
        exact h.create hnull.1 hnull.2 ha
    · have hop' : ∀ task stack entryPoint cr3, op ≠ .createTask task stack entryPoint cr3 :=
        fun task stack entryPoint cr3 hc => hop ⟨task, stack, entryPoint, cr3, hc⟩
      have ha' : s.system.Admissible op := by
        cases op with
        | createTask task stack entryPoint cr3 => exact absurd rfl (hop' task stack entryPoint cr3)
        | _ => exact ha
      obtain ⟨hstack, hlive⟩ := s.system.step_stack hop'
      rw [step_of_ne hop']
      exact h.quiet rfl (hl.step ha') hlive hstack (fun _ he => he) rfl
  | appTaskEntry rsp =>
    obtain ⟨t, hc, -, hrsp⟩ := ha
    by_cases happ : (s.tasks.task t).isApp = true
    · exact h.enter hc happ hrsp
    · -- Not an application task: it is terminated and another one scheduled.
      have hstep : s.step (.appTaskEntry rsp) =
          { s with system := (s.system.step (.terminate t)).step (.schedule false) } := by
        simp only [ExitSystem.step, Option.mem_def.mp hc, happ, Bool.false_eq_true, if_false]
      have hsaved : savedIn (s, .appTaskEntry rsp) = none := by
        simp [savedIn, Option.mem_def.mp hc, happ]
      have hterm : s.system.Admissible (.terminate t) := h.current_live hc
      have hsched : (s.system.step (.terminate t)).Admissible (.schedule false) := trivial
      obtain ⟨l', hl'⟩ := hl.step hterm
      obtain ⟨hstack, hlive⟩ := @TaskSystem.step_stack s.system (.terminate t) (by simp)
      obtain ⟨hstack', hlive'⟩ :=
        @TaskSystem.step_stack (s.system.step (.terminate t)) (.schedule false) (by simp)
      rw [hstep]
      exact h.quiet hsaved (hl'.step hsched) (fun p hp => hlive p (hlive' p hp))
        (hstack'.trans hstack) (fun _ he => he) rfl
  | exit => exact h.exit

theorem start (h : s.Start) : SaveInv [] s := by
  obtain ⟨hlive, task, hsched⟩ := h
  have hsys : s.system = ⟨⟨TaskManager.initializeTasks task, false, 0⟩, []⟩ := by
    rw [← hsched, ← hlive]
  refine ⟨?_, ?_, ?_, ?_, ?_⟩
  · rw [hsys]
    exact (TaskSystem.Reachable.start task).inv
  all_goals simp [hlive]

/-- At an exit, the variable holds the task's own pointer exactly when it entered last. -/
theorem reloads_iff (h : SaveInv past s) (ha : s.Admissible o) :
    ReloadsOwnStack past (s, o) ↔ ExitsAsLastEntered past (s, o) := by
  constructor
  · rintro hown rfl t hc
    obtain ⟨t', hc', he⟩ := ha
    obtain rfl : t = t' := Option.some.inj (hc.symm.trans hc')
    by_contra hlast
    exact h.other t (h.current_live hc) he hlast (hown rfl t hc).2
  · rintro hlast rfl t hc
    obtain ⟨t', hc', he⟩ := ha
    obtain rfl : t = t' := Option.some.inj (hc.symm.trans hc')
    obtain ⟨rsp, hsaved, hin, hsave⟩ := h.saved t (h.current_live hc) he
    have hval : s.exitApp = rsp := hsave (hlast rfl t hc)
    exact ⟨hsaved.trans (congrArg some hval.symm), hval.symm ▸ hin⟩

end SaveInv

/-- In every run, every `ExitApp` reloads the stack pointer that the `EnterUserMode` of the
exiting task saved, in its own kernel stack, exactly when every task that exits is the one
that entered user mode last. -/
theorem exit_stack_iff {run : List (ExitSystem × ExitOp)} {s : ExitSystem} (h : Runs run s) :
    Throughout ReloadsOwnStack run ↔ Throughout ExitsAsLastEntered run :=
  h.throughout_iff (fun _ => SaveInv.start) (fun _ _ _ hi => hi.step) fun _ _ _ hi => hi.reloads_iff

/-- The system before any task is created. -/
def bootSystem : ExitSystem where
  system := ⟨⟨TaskManager.initializeTasks fun _ => TaskManager.newTask 0 0 0 0, false, 0⟩, []⟩
  kernelRspSave := 0
  entered := fun _ => false

theorem bootSystem_start : bootSystem.Start := ⟨rfl, _, rfl⟩

/-- Two application tasks; the first one starts. -/
def startFirst : List ExitOp :=
  [.task (.createTask 0x1000 0x2000 0 0x400000), .task (.markApp 0x1000),
    .task (.addToReadyQueue 0x1000), .task (.createTask 0x7000 0x8000 0 0x401000),
    .task (.markApp 0x7000), .task (.addToReadyQueue 0x7000), .task (.setEnabled true),
    .task (.schedule true), .appTaskEntry 0x5F00]

/-- The first task yields, the second starts and yields, and the first one exits: `ExitApp`
goes on in the stack of the second. -/
theorem exit_stack_of_other :
    ¬∀ run s, Runs run s → Throughout ReloadsOwnStack run := by
  intro h
  have hallowed : Allowed ExitSystem.step Admissible bootSystem (startFirst ++
      [.task (.schedule true), .appTaskEntry 0xBF00, .task (.schedule true), .exit]) := by
    decide +kernel
  have hexit := (h _ _ ((Run.start bootSystem_start).record hallowed)).1 rfl 0x1000
    (by decide +kernel)
  exact absurd hexit.2 (by decide +kernel)

/-- A task that exits before another one starts reloads its own stack pointer. -/
theorem exit_stack_iff_first :
    Throughout ReloadsOwnStack
      (record ExitSystem.step [] bootSystem (startFirst ++ [.exit])).1 := by
  have hallowed : Allowed ExitSystem.step Admissible bootSystem (startFirst ++ [.exit]) := by
    decide +kernel
  refine (exit_stack_iff ((Run.start bootSystem_start).record hallowed)).mpr ?_
  refine ⟨fun _ t hc => ?_, nofun, nofun, nofun, nofun, nofun, nofun, nofun, nofun, nofun, trivial⟩
  have hcur : some t = some 0x1000 := hc.symm.trans (by decide +kernel)
  rw [hcur]
  decide +kernel

end ExitSystem

end Sylphia
