import Sylphia.Core.Run
import Sylphia.Task.History

/-!
# Application tasks and system calls

`AppTaskEntry` of `app_wrapper.cpp`, `SyscallEntry` of `asmfunc.asm` and the system calls
that switch tasks. All tasks share the one `g_syscall_context`: `AppTaskEntry` writes the
kernel stack pointer once when a task starts, and every `SyscallEntry` reads it and
overwrites the user stack pointer that its `sysret` restores.
-/

namespace Sylphia

open Transition

/-- `SyscallContext`. -/
structure SyscallContext where
  /-- `[gs:0]`. -/
  kernelStackPtr : Nat
  /-- `[gs:8]`. -/
  userStackPtr : Nat
  deriving DecidableEq, Repr

/-- The registers that `SyscallEntry` pushes, in the order in which it does. -/
structure UserRegisters where
  r11 : Nat
  rcx : Nat
  rbp : Nat
  rbx : Nat
  r12 : Nat
  r13 : Nat
  r14 : Nat
  r15 : Nat
  rdi : Nat
  rsi : Nat
  rdx : Nat
  r10 : Nat
  r8 : Nat
  r9 : Nat
  deriving DecidableEq, Repr

namespace UserRegisters

/-- The pushed words, first push first. -/
def pushed (r : UserRegisters) : List Nat :=
  [r.r11, r.rcx, r.rbp, r.rbx, r.r12, r.r13, r.r14, r.r15, r.rdi, r.rsi, r.rdx, r.r10, r.r8, r.r9]

/-- The pops at the end of `SyscallEntry`, from the stack pointer `rsp`. -/
def pop (memory : Nat → Nat) (rsp : Nat) : UserRegisters where
  r9 := memory rsp
  r8 := memory (rsp + 8)
  r10 := memory (rsp + 16)
  rdx := memory (rsp + 24)
  rsi := memory (rsp + 32)
  rdi := memory (rsp + 40)
  r15 := memory (rsp + 48)
  r14 := memory (rsp + 56)
  r13 := memory (rsp + 64)
  r12 := memory (rsp + 72)
  rbx := memory (rsp + 80)
  rbp := memory (rsp + 88)
  rcx := memory (rsp + 96)
  r11 := memory (rsp + 104)

end UserRegisters

/-- `push`, one word after the other, below `rsp`. -/
def pushAll (memory : Nat → Nat) (rsp : Nat) : List Nat → Nat → Nat
  | [] => memory
  | w :: ws => pushAll (Function.update memory (rsp - 8) w) (rsp - 8) ws

/-- The bytes `SyscallEntry` pushes. -/
def syscallFrameSize : Nat := 8 * 14

/-- Where the execution of a task stands. -/
inductive Phase
  /-- In kernel code on its own kernel stack: before `EnterUserMode`, or a kernel task. -/
  | kernel
  /-- In user mode, entered with this stack pointer and these registers. -/
  | user (rsp : Nat) (registers : UserRegisters)
  /-- In a system call whose `SyscallEntry` loaded this kernel stack pointer. -/
  | syscall (top : Nat)
  deriving DecidableEq, Repr

/-- The tasks, the block they share, and the words of memory. -/
structure AppSystem where
  system : TaskSystem
  context : SyscallContext
  phase : TaskPtr → Phase
  memory : Nat → Nat

/-- A task manager or scheduler operation, or a step of the current task. -/
inductive AppOp
  | task (op : TaskOp)
  /-- `AppTaskEntry`, with the stack pointer and registers it passes to user mode. -/
  | appTaskEntry (sp : Nat) (registers : UserRegisters)
  /-- `SyscallEntry` up to the call of `SyscallHandler`, from user mode. -/
  | syscallEntry (rsp : Nat) (registers : UserRegisters)
  /-- A store of kernel code to the stack it runs on. -/
  | kernelWrite (addr value : Nat)
  /-- `SyscallEntry` from the return of `SyscallHandler` to `sysret`. -/
  | sysret

namespace AppSystem

/-- The static members of the task manager. -/
def tasks (s : AppSystem) : TaskManager := s.system.scheduler.tasks

/-- The task that is executing. -/
def current (s : AppSystem) : Option TaskPtr := s.tasks.currentTask

/-- `p->kernel_stack + p->kernel_stack_size`. -/
def stackTop (s : AppSystem) (p : TaskPtr) : Nat := s.tasks.stackTop p

/-- `CreateTask` clears the new stack and pushes the entry point. -/
def clearStack (memory : Nat → Nat) (stack entryPoint : Nat) : Nat → Nat :=
  Function.update (fun a => if stack ≤ a ∧ a < stack + kKernelStackSize then 0 else memory a)
    ((stack + kKernelStackSize) / 16 * 16 - 8) entryPoint

/-- One step; `s.current` is the task that takes it. -/
def step (s : AppSystem) : AppOp → AppSystem
  | .task (.createTask task stack entryPoint cr3) =>
    if task = 0 ∨ stack = 0 then s
    else
      { s with
        system := s.system.step (.createTask task stack entryPoint cr3)
        phase := Function.update s.phase task .kernel
        memory := clearStack s.memory stack entryPoint }
  | .task op => { s with system := s.system.step op }
  | .appTaskEntry sp registers =>
    match s.current with
    | some t =>
      if (s.tasks.task t).isApp then
        { s with
          context := { s.context with kernelStackPtr := s.stackTop t }
          phase := Function.update s.phase t (.user sp registers) }
      else { s with system := (s.system.step (.terminate t)).step (.schedule false) }
    | none => { s with system := s.system.step (.schedule false) }
  | .syscallEntry rsp registers =>
    match s.current with
    | some t =>
      { s with
        context := { s.context with userStackPtr := rsp }
        phase := Function.update s.phase t (.syscall s.context.kernelStackPtr)
        memory := pushAll s.memory s.context.kernelStackPtr registers.pushed }
    | none => s
  | .kernelWrite addr value => { s with memory := Function.update s.memory addr value }
  | .sysret =>
    match s.current with
    | some t =>
      match s.phase t with
      | .syscall top =>
        { s with
          phase := Function.update s.phase t
            (.user s.context.userStackPtr (UserRegisters.pop s.memory (top - syscallFrameSize))) }
      | _ => s
    | none => s

/-- The top of the stack that kernel code of a task runs on, and where its own frames begin. -/
def workingStack (s : AppSystem) (t : TaskPtr) : Option (Nat × Nat) :=
  match s.phase t with
  | .kernel => some (s.stackTop t, s.stackTop t)
  | .user _ _ => none
  | .syscall top => some (top, top - syscallFrameSize)

/-- Two address ranges of the size of a kernel stack have no word in common. -/
def StackApart (a b : Nat) : Prop := a + kKernelStackSize ≤ b ∨ b + kKernelStackSize ≤ a

instance (a b : Nat) : Decidable (StackApart a b) := inferInstanceAs (Decidable (_ ∨ _))

/-- Is the CPU in user mode? -/
def inUserMode (s : AppSystem) : Bool :=
  match s.current.map s.phase with
  | some (.user _ _) => true
  | _ => false

/-- Is the current task in a system call? -/
def inSyscall (s : AppSystem) : Bool :=
  match s.current.map s.phase with
  | some (.syscall _) => true
  | _ => false

/-- When a step can be taken. New stacks come from the allocator, user code reaches the
scheduler only through a system call, and kernel code stays within its stack. -/
def Admissible (s : AppSystem) : AppOp → Prop
  | .task (.createTask task stack entryPoint cr3) =>
    s.system.Admissible (.createTask task stack entryPoint cr3) ∧
      ∀ p ∈ s.system.live, StackApart (s.tasks.stack p).1 stack
  | .task (.schedule true) => s.inUserMode = false
  | .task op => s.system.Admissible op
  | .appTaskEntry _ _ => s.current.map s.phase = some .kernel
  | .syscallEntry _ _ => s.inUserMode
  | .kernelWrite addr _ => ∃ stack ∈ s.current.bind s.workingStack,
    stack.1 ≤ addr + kKernelStackSize ∧ addr + 8 ≤ stack.2
  | .sysret => s.inSyscall

instance (s : AppSystem) : (o : AppOp) → Decidable (s.Admissible o)
  | .task (.createTask _ stack _ _) => inferInstanceAs (Decidable (_ ∧ ∀ p ∈ s.system.live,
      StackApart (s.tasks.stack p).1 stack))
  | .task (.schedule true) => inferInstanceAs (Decidable (s.inUserMode = false))
  | .task (.schedule false) | .task (.setEnabled _) => inferInstanceAs (Decidable True)
  | .task (.markApp p) | .task (.addToReadyQueue p) | .task (.removeFromReadyQueue p)
  | .task (.blockTask p) | .task (.wakeTask p) | .task (.terminate p) =>
    inferInstanceAs (Decidable (p ∈ s.system.live))
  | .appTaskEntry _ _ => inferInstanceAs (Decidable (s.current.map s.phase = some .kernel))
  | .syscallEntry _ _ => inferInstanceAs (Decidable (s.inUserMode = true))
  | .kernelWrite addr _ => inferInstanceAs (Decidable (∃ stack ∈ s.current.bind s.workingStack,
      stack.1 ≤ addr + kKernelStackSize ∧ addr + 8 ≤ stack.2))
  | .sysret => inferInstanceAs (Decidable (s.inSyscall = true))

/-- After the kernel's initialisation there are no tasks yet. -/
def Start (s : AppSystem) : Prop :=
  s.system.live = [] ∧ ∃ task, s.system.scheduler = ⟨TaskManager.initializeTasks task, false, 0⟩

/-- The runs of the system. -/
abbrev Runs : List (AppSystem × AppOp) → AppSystem → Prop := Run step Admissible Start

/-- The task that the step starts, if it is an `AppTaskEntry` that reaches user mode. -/
def startedBy (x : AppSystem × AppOp) : Option TaskPtr :=
  match x.2 with
  | .appTaskEntry _ _ => x.1.current.filter fun t => (x.1.tasks.task t).isApp
  | _ => none

/-- The task that executes `SyscallEntry` in the step, with its user stack pointer. -/
def enteredBy (x : AppSystem × AppOp) : Option (TaskPtr × Nat) :=
  match x.2 with
  | .syscallEntry rsp _ => x.1.current.map fun t => (t, rsp)
  | _ => none

/-- The task that most recently reached user mode for the first time. -/
def lastStarted (run : List (AppSystem × AppOp)) : Option TaskPtr := run.findSome? startedBy

/-- The most recent `SyscallEntry`. -/
def lastEntry (run : List (AppSystem × AppOp)) : Option (TaskPtr × Nat) := run.findSome? enteredBy

/-- The user stack pointer of the most recent `SyscallEntry` of the task. -/
def entryOf (t : TaskPtr) (run : List (AppSystem × AppOp)) : Option Nat :=
  run.findSome? fun x => ((enteredBy x).filter fun e => e.1 = t).map Prod.snd

/-- Two application tasks are created and queued. -/
def createTwo : List AppOp :=
  [.task (.createTask 0x1000 0x2000 0 0x400000), .task (.markApp 0x1000),
    .task (.addToReadyQueue 0x1000), .task (.createTask 0x7000 0x8000 0 0x401000),
    .task (.markApp 0x7000), .task (.addToReadyQueue 0x7000), .task (.setEnabled true)]

/-- The first task starts and enters a system call. -/
def firstCall : List AppOp :=
  [.task (.schedule true), .appTaskEntry 0x6FFFFFF8 (.pop (fun _ => 0) 0),
    .syscallEntry 0x6FFFFF00 (.pop (fun _ => 0) 0)]

/-- It yields; the second task starts, enters a system call and yields in turn. -/
def takeTurns : List AppOp :=
  [.task (.schedule true), .appTaskEntry 0x6FFFFFF8 (.pop (fun _ => 0) 0),
    .syscallEntry 0x6FFFFE00 (.pop (fun _ => 0) 0), .task (.schedule true)]

/-- The system before any task is created. -/
def bootSystem : AppSystem where
  system := ⟨⟨TaskManager.initializeTasks fun _ => TaskManager.newTask 0 0 0 0, false, 0⟩, []⟩
  context := ⟨0, 0⟩
  phase := fun _ => .kernel
  memory := fun _ => 0

theorem bootSystem_runs : Runs [] bootSystem := .start ⟨rfl, _, rfl⟩

/-- The first task returns from its system call. -/
def firstReturn : List AppOp := createTwo ++ firstCall ++ takeTurns ++ [.sysret]

/-- The first task returns and enters its second system call. -/
def secondCall : List AppOp := firstReturn ++ [.syscallEntry 0x6FFFFF00 (.pop (fun _ => 0) 0)]

theorem firstCall_runs : Runs (record step [] bootSystem (createTwo ++ firstCall)).1
    (record step [] bootSystem (createTwo ++ firstCall)).2 :=
  bootSystem_runs.record (by decide +kernel)

theorem firstReturn_runs : Runs (record step [] bootSystem firstReturn).1
    (record step [] bootSystem firstReturn).2 :=
  bootSystem_runs.record (by decide +kernel)

theorem secondCall_runs : Runs (record step [] bootSystem secondCall).1
    (record step [] bootSystem secondCall).2 :=
  bootSystem_runs.record (by decide +kernel)


end AppSystem

end Sylphia
