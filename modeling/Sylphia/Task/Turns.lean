import Sylphia.Task.RoundRobin

/-!
# A queued current task

`Schedule` does nothing when the head of the ready queue is the current task. So it should while
that task is the only one. But the current task can be queued, by `AddToReadyQueue` or by a
`WakeTask` before it was switched away from; once it is at the head, nothing moves the tasks
behind it.
-/

namespace Sylphia

open LinkedList Transition

namespace TaskManager

variable {tm : TaskManager} {live l : List TaskPtr} {p : TaskPtr}

/-- The task is in the ready queue. -/
def Queued (tm : TaskManager) (p : TaskPtr) : Prop :=
  ∃ l, Segment tm.next tm.readyQueueHead l none ∧ p ∈ l

/-- The current task is at the head of the queue, and another task is behind it. -/
def Stuck (tm : TaskManager) : Prop :=
  ∃ c, tm.currentTask = some c ∧ tm.readyQueueHead = some c ∧ tm.next c ≠ none

/-- Adding the task puts it behind no current task. -/
def AddKeeps (tm : TaskManager) (p : TaskPtr) : Prop :=
  ¬ ∃ c, tm.currentTask = some c ∧ tm.readyQueueHead = some c ∧ p ≠ c

/-- Removing the task brings no current task to the head, with another one behind it. -/
def RemoveKeeps (tm : TaskManager) (p : TaskPtr) : Prop :=
  ¬ ∃ c, tm.currentTask = some c ∧ tm.readyQueueHead = some p ∧ tm.next p = some c ∧
    tm.next c ≠ none

instance decidableExistsCurrent (cur : Option TaskPtr) (P : TaskPtr → Prop) [DecidablePred P] :
    Decidable (∃ c, cur = some c ∧ P c) :=
  match cur with
  | none => isFalse (by simp)
  | some c => decidable_of_iff (P c) (by simp)

instance decidableStuck (tm : TaskManager) : Decidable tm.Stuck :=
  inferInstanceAs (Decidable (∃ c, tm.currentTask = some c ∧ _))

instance decidableAddKeeps (tm : TaskManager) (p : TaskPtr) : Decidable (tm.AddKeeps p) :=
  inferInstanceAs (Decidable (¬ ∃ c, tm.currentTask = some c ∧ _))

instance decidableRemoveKeeps (tm : TaskManager) (p : TaskPtr) : Decidable (tm.RemoveKeeps p) :=
  inferInstanceAs (Decidable (¬ ∃ c, tm.currentTask = some c ∧ _))

/-- `Stuck`, for a queue and a current task. -/
def StuckIn (cur : Option TaskPtr) (l : List TaskPtr) : Prop :=
  ∃ c u ts, cur = some c ∧ l = c :: u :: ts

variable {cur : Option TaskPtr}

theorem stuckIn_append (h : ¬ StuckIn cur l) (hp : p ∉ l) :
    StuckIn cur (l ++ [p]) ↔ ∃ c, cur = some c ∧ l.head? = some c := by
  constructor
  · rintro ⟨c, u, ts, hc, he⟩
    cases l with
    | nil => exact absurd (congrArg List.length he) (by simp)
    | cons a l =>
      obtain ⟨rfl, -⟩ := List.cons.inj he
      exact ⟨a, hc, rfl⟩
  · rintro ⟨c, hc, hhead⟩
    cases l with
    | nil => cases hhead
    | cons a l =>
      obtain rfl := Option.some.inj hhead
      cases l with
      | nil => exact ⟨a, p, [], hc, rfl⟩
      | cons b l => exact absurd ⟨a, b, l, hc, rfl⟩ h

theorem stuckIn_erase (h : ¬ StuckIn cur l) :
    StuckIn cur (l.erase p) ↔ ∃ c u ts, cur = some c ∧ l = p :: c :: u :: ts := by
  constructor
  · rintro ⟨c, u, ts, hc, he⟩
    cases l with
    | nil => cases he
    | cons a l =>
      by_cases ha : a = p
      · subst ha
        rw [List.erase_cons_head] at he
        exact ⟨c, u, ts, hc, by rw [he]⟩
      · -- The head stays, so the current task was there already.
        rw [List.erase_cons_tail (by simpa using ha)] at he
        obtain ⟨rfl, htail⟩ := List.cons.inj he
        cases l with
        | nil => cases htail
        | cons b l => exact absurd ⟨a, b, l, hc, rfl⟩ h
  · rintro ⟨c, u, ts, hc, rfl⟩
    exact ⟨c, u, ts, hc, List.erase_cons_head ..⟩

namespace Inv

theorem stuck_iff (h : tm.Inv live l) : tm.Stuck ↔ StuckIn tm.currentTask l := by
  have hhead := h.queue.forward.start_eq
  constructor
  · rintro ⟨c, hc, hq, hn⟩
    cases l with
    | nil => cases hq.symm.trans hhead
    | cons a l =>
      obtain rfl := Option.some.inj (hq.symm.trans hhead)
      cases l with
      | nil => exact absurd h.queue.forward.2 hn
      | cons b l => exact ⟨_, b, l, hc, rfl⟩
  · rintro ⟨c, u, ts, hc, rfl⟩
    refine ⟨c, hc, hhead, ?_⟩
    rw [h.queue.forward.2.1]
    exact Option.some_ne_none u

theorem addKeeps_iff (h : tm.Inv live l) (hstuck : ¬ StuckIn tm.currentTask l) :
    tm.AddKeeps p ↔ ¬ StuckIn tm.currentTask (if p ∈ l then l else l ++ [p]) := by
  have hhead := h.queue.forward.start_eq
  rw [AddKeeps, hhead]
  by_cases hp : p ∈ l
  · rw [if_pos hp]
    refine iff_of_true ?_ hstuck
    rintro ⟨c, hc, hl, hne⟩
    cases l with
    | nil => cases hl
    | cons a l =>
      obtain rfl := Option.some.inj hl
      cases l with
      | nil => exact hne (List.mem_singleton.mp hp)
      | cons b l => exact hstuck ⟨a, b, l, hc, rfl⟩
  · rw [if_neg hp, stuckIn_append hstuck hp, not_iff_not]
    refine exists_congr fun c => and_congr_right fun _ => and_iff_left_of_imp fun hl => ?_
    rintro rfl
    exact hp (List.mem_of_head? hl)

theorem removeKeeps_iff (h : tm.Inv live l) (hstuck : ¬ StuckIn tm.currentTask l) :
    tm.RemoveKeeps p ↔ ¬ StuckIn tm.currentTask (l.erase p) := by
  have hhead := h.queue.forward.start_eq
  rw [RemoveKeeps, stuckIn_erase hstuck, not_iff_not]
  constructor
  · rintro ⟨c, hc, hq, hn, hn'⟩
    cases l with
    | nil => cases hq.symm.trans hhead
    | cons a l =>
      obtain rfl := Option.some.inj (hq.symm.trans hhead)
      cases l with
      | nil => cases hn.symm.trans h.queue.forward.2
      | cons b l =>
        obtain rfl := Option.some.inj (hn.symm.trans h.queue.forward.2.1)
        cases l with
        | nil => exact absurd h.queue.forward.2.2 hn'
        | cons u ts => exact ⟨_, u, ts, hc, rfl⟩
  · rintro ⟨c, u, ts, hc, rfl⟩
    refine ⟨c, hc, hhead, h.queue.forward.2.1, ?_⟩
    rw [h.queue.forward.2.2.1]
    exact Option.some_ne_none u

end Inv

@[simp] theorem currentTask_add (tm : TaskManager) (p : TaskPtr) :
    (tm.addToReadyQueue p).currentTask = tm.currentTask := by
  rw [addToReadyQueue]
  split
  · rfl
  · dsimp only
    split <;> rfl

end TaskManager

namespace TaskSystem

variable {s : TaskSystem} {l : List TaskPtr}

/-- If a task other than the current one is queued, `Schedule(true)` makes another task current. -/
def Switches (s : TaskSystem) : Prop :=
  s.scheduler.enabled = true →
    (∃ p, s.scheduler.tasks.Queued p ∧ s.scheduler.tasks.currentTask ≠ some p) →
      ∃ q, (s.step (.schedule true)).scheduler.tasks.currentTask = some q ∧
        s.scheduler.tasks.currentTask ≠ some q

/-- The operation does not bring the current task to the head of the queue, with another task
behind it. -/
def KeepsTurns (s : TaskSystem) : TaskOp → Prop
  | .addToReadyQueue p => s.scheduler.enabled = true → s.scheduler.tasks.AddKeeps p
  | .wakeTask p => s.scheduler.enabled = true → s.scheduler.tasks.state p = .blocked →
    s.scheduler.tasks.AddKeeps p
  | .removeFromReadyQueue p | .blockTask p | .terminate p =>
    s.scheduler.enabled = true → s.scheduler.tasks.RemoveKeeps p
  | .setEnabled enabled => enabled = true → ¬ s.scheduler.tasks.Stuck
  | .createTask _ _ _ _ | .markApp _ | .schedule _ => True

instance decidableKeepsTurns (s : TaskSystem) : (op : TaskOp) → Decidable (s.KeepsTurns op)
  | .addToReadyQueue p =>
    inferInstanceAs (Decidable (s.scheduler.enabled = true → s.scheduler.tasks.AddKeeps p))
  | .wakeTask p => inferInstanceAs (Decidable (s.scheduler.enabled = true →
      s.scheduler.tasks.state p = .blocked → s.scheduler.tasks.AddKeeps p))
  | .removeFromReadyQueue p | .blockTask p | .terminate p =>
    inferInstanceAs (Decidable (s.scheduler.enabled = true → s.scheduler.tasks.RemoveKeeps p))
  | .setEnabled enabled =>
    inferInstanceAs (Decidable (enabled = true → ¬ s.scheduler.tasks.Stuck))
  | .createTask _ _ _ _ | .markApp _ | .schedule _ => inferInstanceAs (Decidable True)

/-- Another task becomes current unless the tasks of the queue are stuck. -/
theorem Inv.switches_iff (h : s.Inv l) :
    s.Switches ↔ (s.scheduler.enabled = true → ¬ s.scheduler.tasks.Stuck) := by
  refine forall_congr' fun he => ?_
  have hhead := h.tasks.queue.forward.start_eq
  have hqueued {p : TaskPtr} : s.scheduler.tasks.Queued p ↔ p ∈ l := by
    constructor
    · rintro ⟨l', hl', hp⟩
      exact hl'.unique h.tasks.queue.forward ▸ hp
    · exact fun hp => ⟨l, h.tasks.queue.forward, hp⟩
  simp only [hqueued]
  cases l with
  | nil =>
    refine iff_of_true ?_ ?_
    · rintro ⟨p, hp, -⟩
      exact absurd hp List.not_mem_nil
    · rintro ⟨c, -, hc, -⟩
      cases hc.symm.trans hhead
  | cons t ts =>
    by_cases hc : s.scheduler.tasks.currentTask = some t
    · -- Nothing is done, which is right when no other task is queued.
      have hsame : (s.step (.schedule true)).scheduler = s.scheduler := by
        change (s.scheduler.schedule true).1 = s.scheduler
        rw [Scheduler.schedule, he, if_neg (by decide), TaskManager.getNextTask, hhead]
        exact congrArg Prod.fst (if_pos hc)
      rw [hsame, h.tasks.stuck_iff, hc]
      constructor
      · rintro hswitch ⟨c, u, ts', hct, hts⟩
        obtain ⟨rfl, rfl⟩ := List.cons.inj hts
        have hut : some t ≠ some u := by
          intro hu
          obtain rfl := Option.some.inj hu
          exact (List.nodup_cons.mp h.tasks.queue.nodup).1 List.mem_cons_self
        obtain ⟨q, hq, hq'⟩ := hswitch ⟨u, by simp, hut⟩
        exact hq' hq
      · rintro hno ⟨p, hp, hne⟩
        rcases List.mem_cons.mp hp with rfl | hp
        · exact absurd rfl hne
        · cases ts with
          | nil => exact absurd hp List.not_mem_nil
          | cons u ts => exact absurd ⟨t, u, ts, rfl, rfl⟩ hno
    · have hstep : (s.step (.schedule true)).scheduler = _ :=
        Scheduler.schedule_true he hhead hc
      refine iff_of_true (fun _ => ⟨t, ?_, hc⟩) ?_
      · rw [hstep]
        rfl
      · rintro ⟨c, hct, hc', -⟩
        exact hc (hct.trans (hc'.symm.trans hhead))

/-- After a call of the scheduler that switches, the current task is not queued. -/
theorem Inv.schedule_not_stuck (h : s.Inv l) (voluntary : Bool)
    (hs : ¬ s.scheduler.tasks.Stuck) : ¬ (s.step (.schedule voluntary)).scheduler.tasks.Stuck := by
  change ¬ (s.scheduler.schedule voluntary).1.tasks.Stuck
  rw [Scheduler.schedule]
  split
  · exact hs
  · split
    · exact hs
    · next next hnext =>
      split
      · exact hs
      · split
        · exact hs
        · obtain ⟨l', hr, hnone, hsub⟩ := h.tasks.requeue
          have hhead := h.tasks.queue.forward.start_eq
          rw [TaskManager.getNextTask, hhead] at hnext
          have hd := hr.dispatch hnone (hsub next (List.mem_of_head? hnext))
          rintro ⟨c, hc, hq, -⟩
          obtain rfl : next = c := Option.some.inj hc
          have hmem := List.mem_of_head? (hd.queue.forward.start_eq.symm.trans hq)
          exact hr.queue.nodup.not_mem_erase hmem

/-- Where the scheduler is enabled as before, what has become of the queue decides. -/
theorem Inv.switches_iff_of_enabled {s' : TaskSystem} {keeps : Prop} (h' : s'.Inv l)
    (he : s'.scheduler.enabled = s.scheduler.enabled) (hkeeps : s.scheduler.enabled = true →
      (keeps ↔ ¬ TaskManager.StuckIn s'.scheduler.tasks.currentTask l)) :
    s'.Switches ↔ (s.scheduler.enabled = true → keeps) := by
  rw [h'.switches_iff, he, h'.tasks.stuck_iff]
  exact forall_congr' fun henabled => (hkeeps henabled).symm

section

variable (h : s.Inv l) (hs : s.scheduler.enabled = true → ¬ s.scheduler.tasks.Stuck) {p : TaskPtr}

include h hs

theorem Inv.not_stuckIn (he : s.scheduler.enabled = true) :
    ¬ TaskManager.StuckIn s.scheduler.tasks.currentTask l :=
  mt h.tasks.stuck_iff.mpr (hs he)

/-- Nothing changes for the queue. -/
theorem Inv.switches_of_same {s' : TaskSystem} (h' : s'.Inv l)
    (he : s'.scheduler.enabled = s.scheduler.enabled)
    (hcur : s'.scheduler.tasks.currentTask = s.scheduler.tasks.currentTask) : s'.Switches := by
  rw [h'.switches_iff, he, h'.tasks.stuck_iff, hcur, ← h.tasks.stuck_iff]
  exact hs

theorem Inv.add_switches_iff (hp : p ∈ s.live) : (s.step (.addToReadyQueue p)).Switches ↔
    (s.scheduler.enabled = true → s.scheduler.tasks.AddKeeps p) := by
  have h' : (s.step (.addToReadyQueue p)).Inv _ := ⟨h.live, h.tasks.add hp⟩
  refine h'.switches_iff_of_enabled rfl fun he => ?_
  rw [h.tasks.addKeeps_iff (h.not_stuckIn hs he)]
  exact not_congr (by rw [← TaskManager.currentTask_add s.scheduler.tasks p]; rfl)

/-- The operation takes a task out of the queue. -/
theorem Inv.remove_switches_iff {s' : TaskSystem} (h' : s'.Inv (l.erase p))
    (he : s'.scheduler.enabled = s.scheduler.enabled)
    (hcur : s'.scheduler.tasks.currentTask = s.scheduler.tasks.currentTask) :
    s'.Switches ↔ (s.scheduler.enabled = true → s.scheduler.tasks.RemoveKeeps p) := by
  refine h'.switches_iff_of_enabled he fun henabled => ?_
  rw [h.tasks.removeKeeps_iff (h.not_stuckIn hs henabled), hcur]

theorem Inv.terminate_switches_iff (hp : p ∈ s.live) : (s.step (.terminate p)).Switches ↔
    (s.scheduler.enabled = true → s.scheduler.tasks.RemoveKeeps p) := by
  have h' : (s.step (.terminate p)).Inv _ := ⟨h.live.erase p, h.tasks.terminate hp h.live⟩
  have hstep : (s.step (.terminate p)).scheduler.tasks =
      terminateAndClear s.scheduler.tasks p := rfl
  by_cases hcur : s.scheduler.tasks.currentTask = some p
  · -- Nothing is current any more; before, the task was not queued twice.
    refine h'.switches_iff_of_enabled rfl fun he => ?_
    rw [h.tasks.removeKeeps_iff (h.not_stuckIn hs he), hstep, terminateAndClear, if_pos hcur]
    refine iff_of_true ?_ ?_
    · rw [TaskManager.stuckIn_erase (h.not_stuckIn hs he)]
      rintro ⟨c, u, ts, hc, rfl⟩
      obtain rfl := Option.some.inj (hcur.symm.trans hc)
      exact (List.nodup_cons.mp h.tasks.queue.nodup).1 List.mem_cons_self
    · rintro ⟨c, u, ts, hc, -⟩
      cases hc
  · refine h.remove_switches_iff hs h' rfl ?_
    rw [hstep, terminateAndClear, if_neg hcur]
    exact TaskManager.currentTask_remove s.scheduler.tasks p

end

/-- One operation: it leaves the tasks of the queue their turns exactly when it is none of those
that put the current task in front of them. -/
theorem Inv.step_switches_iff (h : s.Inv l)
    (hs : s.scheduler.enabled = true → ¬ s.scheduler.tasks.Stuck) {op : TaskOp}
    (ha : s.Admissible op) : (s.step op).Switches ↔ s.KeepsTurns op := by
  cases op with
  | createTask task stack entryPoint cr3 =>
    refine iff_of_true (h.switches_of_same hs (h.createTask ha stack entryPoint cr3) rfl ?_) trivial
    simp only [TaskSystem.step, TaskManager.createTask]
    split
    · rfl
    · split <;> rfl
  | markApp p =>
    exact iff_of_true
      (h.switches_of_same hs ⟨h.live, h.tasks.update_other _ rfl rfl rfl⟩ rfl rfl) trivial
  | addToReadyQueue p => exact h.add_switches_iff hs ha
  | removeFromReadyQueue p =>
    exact h.remove_switches_iff hs ⟨h.live, h.tasks.remove ha⟩ rfl
      (TaskManager.currentTask_remove s.scheduler.tasks p)
  | blockTask p =>
    exact h.remove_switches_iff hs ⟨h.live, h.tasks.block ha⟩ rfl
      (TaskManager.currentTask_remove s.scheduler.tasks p)
  | wakeTask p =>
    by_cases hblocked : s.scheduler.tasks.state p = .blocked
    · have hstep : s.step (.wakeTask p) = s.step (.addToReadyQueue p) := by
        simp only [TaskSystem.step, onTasks, TaskManager.wakeTask, if_pos hblocked]
      rw [hstep, h.add_switches_iff hs ha]
      exact forall_congr' fun _ => ⟨fun hk _ => hk, fun hk => hk hblocked⟩
    · have hstep : s.step (.wakeTask p) = s := by
        simp only [TaskSystem.step, onTasks, TaskManager.wakeTask, if_neg hblocked]
      rw [hstep]
      exact iff_of_true (h.switches_of_same hs h rfl rfl) fun _ hb => absurd hb hblocked
  | terminate p => exact h.terminate_switches_iff hs ha
  | schedule voluntary =>
    refine iff_of_true ?_ trivial
    obtain ⟨l', h'⟩ := h.step (show s.Admissible (.schedule voluntary) from trivial)
    refine h'.switches_iff.mpr fun he => h.schedule_not_stuck voluntary (hs ?_)
    exact (Scheduler.enabled_schedule s.scheduler voluntary).symm.trans he
  | setEnabled enabled =>
    have h' : (s.step (.setEnabled enabled)).Inv l := ⟨h.live, h.tasks⟩
    exact h'.switches_iff

/-- The task manager is sound, and no task is stuck while the scheduler is enabled. -/
def InTurn (s : TaskSystem) : Prop :=
  ∃ l, s.Inv l ∧ (s.scheduler.enabled = true → ¬ s.scheduler.tasks.Stuck)

/-- The states of `TaskManager::Initialize` and `Scheduler::Initialize`. -/
def AtStart (s : TaskSystem) : Prop :=
  ∃ task, s = ⟨⟨TaskManager.initializeTasks task, false, 0⟩, []⟩

/-- In every run, the tasks of the queue get their turns in every state reached exactly when no
operation puts the current task in front of them. -/
theorem switches_throughout_iff {run : List (TaskSystem × TaskOp)}
    (h : Run TaskSystem.step Admissible AtStart run s) :
    Throughout (fun _ x => (x.1.step x.2).Switches) run ↔
      Throughout (fun _ x => x.1.KeepsTurns x.2) run := by
  have hstart (s : TaskSystem) (h0 : AtStart s) : s.InTurn := by
    obtain ⟨task, rfl⟩ := h0
    obtain ⟨l, hinv⟩ := (Reachable.start task).inv
    exact ⟨l, hinv, fun he => absurd he Bool.false_ne_true⟩
  have hnext {s : TaskSystem} {op : TaskOp} (ha : s.Admissible op) (hi : s.InTurn)
      (hswitch : (s.step op).Switches) : (s.step op).InTurn := by
    obtain ⟨l, hinv, -⟩ := hi
    obtain ⟨l', hinv'⟩ := hinv.step ha
    exact ⟨l', hinv', hinv'.switches_iff.mp hswitch⟩
  constructor
  · intro hswitches
    refine (h.throughout (I := fun _ s => s.InTurn) hstart ?_ hswitches).1
    rintro past s op ⟨l, hinv, hs⟩ ha hswitch
    exact ⟨(hinv.step_switches_iff hs ha).mp hswitch, hnext ha ⟨l, hinv, hs⟩ hswitch⟩
  · intro hkeeps
    refine (h.throughout (I := fun _ s => s.InTurn) hstart ?_ hkeeps).1
    rintro past s op ⟨l, hinv, hs⟩ ha hk
    have hswitch := (hinv.step_switches_iff hs ha).mpr hk
    exact ⟨hswitch, hnext ha ⟨l, hinv, hs⟩ hswitch⟩

theorem atStart_noTasks : AtStart noTasks := ⟨_, rfl⟩

/-- Two tasks that take turns. -/
theorem switches_throughout_two : Throughout (fun _ x => (x.1.step x.2).Switches)
    (record TaskSystem.step [] noTasks (twoTasks ++ [.schedule true])).1 :=
  (switches_throughout_iff ((Run.start atStart_noTasks).record (by decide))).mpr (by decide)

/-- The current task is blocked and woken before the next call, and then a second task is queued:
no call lets this one run. -/
theorem switches_fails : ¬ ∀ run s, Run TaskSystem.step Admissible AtStart run s →
    Throughout (fun _ x => (x.1.step x.2).Switches) run := by
  intro h
  have hallowed : Allowed TaskSystem.step Admissible noTasks
      [.createTask 0x1000 0x2000 0x400000 0x6000, .createTask 0x7000 0x8000 0x400000 0x6000,
        .addToReadyQueue 0x1000, .setEnabled true, .schedule true, .blockTask 0x1000,
        .wakeTask 0x1000, .addToReadyQueue 0x7000] := by decide
  obtain ⟨q, hq, hne⟩ := (h _ _ ((Run.start atStart_noTasks).record hallowed)).1 (by decide)
    ⟨0x7000, ⟨[0x1000, 0x7000], ⟨by decide, by decide, rfl⟩, by decide⟩, by decide⟩
  exact hne ((show _ = _ by decide).trans hq)


end TaskSystem

end Sylphia
