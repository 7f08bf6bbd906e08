import Sylphia.Nvme.Queues

/-!
# The phase tag

However long the controller takes, a waiting loop of the driver ends exactly when the entry of
its own command is there: an entry of the pass before has the other phase tag. The positions
and the expected phase of both queues follow the number of their commands.
-/

namespace Sylphia.Nvme

open Transition

/-- The phase tag as a cycle bit. -/
def tagged (entry : CompletionQueueEntry) : Bool := entry.phaseTag == 1

theorem phaseTag_lt (entry : CompletionQueueEntry) : entry.phaseTag < 2 := by
  rw [CompletionQueueEntry.phaseTag, Nat.and_one_is_mod]
  exact Nat.mod_lt _ (by decide)

theorem phaseOf_eq (n : Nat) :
    System.phaseOf n = if CycleRing.cycle queueDepth n then 1 else 0 := by
  rw [System.phaseOf, CycleRing.cycle, queueDepth]
  rcases Nat.mod_two_eq_zero_or_one (n / 32) with h | h <;> rw [h] <;> rfl

/-- An entry has the phase tag of the `n`-th command when its bit is that of the pass. -/
theorem phaseTag_eq_phaseOf_iff (entry : CompletionQueueEntry) (n : Nat) :
    entry.phaseTag = System.phaseOf n ↔ tagged entry = CycleRing.cycle queueDepth n := by
  have hlt := phaseTag_lt entry
  rw [phaseOf_eq, tagged]
  cases CycleRing.cycle queueDepth n with
  | true => simp
  | false =>
    simp only [Bool.false_eq_true, if_false, beq_eq_false_iff_ne]
    omega

theorem nextIndex_mod (n : Nat) : nextIndex (n % 32) = (n + 1) % 32 := by
  rw [nextIndex, queueDepth]
  split <;> omega

/-- The phase changes with the pass. -/
theorem phaseOf_succ (n : Nat) :
    (if n % 32 + 1 ≥ queueDepth then (if System.phaseOf n = 0 then 1 else 0)
      else System.phaseOf n) = System.phaseOf (n + 1) := by
  rw [queueDepth]
  split
  · next hlast =>
    have hdiv : (n + 1) / 32 = n / 32 + 1 := by omega
    rw [System.phaseOf, System.phaseOf, hdiv]
    rcases Nat.mod_two_eq_zero_or_one (n / 32) with h | h
    · rw [h, show (n / 32 + 1) % 2 = 1 by omega]
      rfl
    · rw [h, show (n / 32 + 1) % 2 = 0 by omega]
      rfl
  · next hlast =>
    have hdiv : (n + 1) / 32 = n / 32 := by omega
    rw [System.phaseOf, System.phaseOf, hdiv]

/-- A queue after `done` of its `sent` commands have returned; the controller has written the
entries `written`. -/
structure QueueInv (q : QueuePair) (written : List CompletionQueueEntry) (done sent : Nat) :
    Prop where
  holds : CycleRing.Holds tagged queueDepth written q.cq
  cqHead : q.cqHead = done % 32
  phase : q.phase = System.phaseOf done
  sqTail : q.sqTail = sent % 32
  sqDoorbell : q.sqDoorbell = sent % 32
  done_le : done ≤ written.length
  written_le : written.length ≤ sent
  sent_le : sent ≤ done + 1

namespace QueueInv

variable {q : QueuePair} {written : List CompletionQueueEntry} {done sent : Nat}

theorem submit (h : QueueInv q written done done) (cmd : SubmissionQueueEntry) :
    QueueInv (q.submit cmd) written done (done + 1) := by
  have hnext : nextIndex q.sqTail = (done + 1) % 32 := by rw [h.sqTail, nextIndex_mod]
  exact ⟨h.holds, h.cqHead, h.phase, hnext, hnext, h.done_le,
    Nat.le_succ_of_le h.written_le, Nat.le_refl _⟩

/-- The controller writes the entry of a command that was announced. -/
theorem write (h : QueueInv q written done sent) {entry : CompletionQueueEntry}
    (hnew : written.length % 32 ≠ q.sqDoorbell)
    (htag : entry.phaseTag = System.phaseOf written.length) :
    QueueInv { q with cq := Function.update q.cq (written.length % queueDepth) entry }
      (written ++ [entry]) done sent := by
  have hlen : (written ++ [entry]).length = written.length + 1 := by simp
  have hne : written.length ≠ sent := by
    intro heq
    rw [h.sqDoorbell, heq] at hnew
    exact hnew rfl
  have hle := h.written_le
  have hdone := h.done_le
  exact ⟨h.holds.write ((phaseTag_eq_phaseOf_iff entry _).mp htag), h.cqHead, h.phase, h.sqTail,
    h.sqDoorbell, by omega, by omega, h.sent_le⟩

/-- The waiting loop ends exactly when the entry of its command is there. -/
theorem completed_iff (h : QueueInv q written done (done + 1)) :
    q.completed = true ↔ written.length = done + 1 := by
  rw [QueuePair.completed, beq_iff_eq, h.phase, phaseTag_eq_phaseOf_iff, h.cqHead]
  have hdone := h.done_le
  have hle := h.written_le
  constructor
  · intro htag
    by_contra hnot
    have heq : written.length = done := by omega
    have hstale := h.holds.stale (by decide)
    rw [heq] at hstale
    exact hstale htag
  · intro heq
    exact (h.holds.get (c := done) (by omega) (by rw [queueDepth]; omega)).2

theorem advance (h : QueueInv q written done (done + 1)) (hwritten : written.length = done + 1) :
    QueueInv q.advance written (done + 1) (done + 1) := by
  refine ⟨h.holds, ?_, ?_, h.sqTail, h.sqDoorbell, by omega, by omega, Nat.le_succ _⟩
  · show nextIndex q.cqHead = _
    rw [h.cqHead, nextIndex_mod]
  · show (if q.cqHead + 1 ≥ queueDepth then (if q.phase = 0 then 1 else 0) else q.phase) = _
    rw [h.cqHead, h.phase, phaseOf_succ]

/-- The entry one step back from the head is that of the command. -/
theorem doneStatus_eq (h : QueueInv q written done (done + 1))
    (hwritten : written.length = done + 1) :
    ∃ entry, written[done]? = some entry ∧ q.advance.doneStatus = entry.status := by
  have hlt : done < written.length := by omega
  have hindex : (if q.advance.cqHead = 0 then queueDepth - 1 else q.advance.cqHead - 1) =
      done % queueDepth := by
    rw [(h.advance hwritten).cqHead, queueDepth]
    split <;> omega
  refine ⟨written[done], List.getElem?_eq_getElem hlt, ?_⟩
  rw [QueuePair.doneStatus, hindex]
  show (q.cq (done % queueDepth)).status = _
  rw [(h.holds.get hlt (by rw [queueDepth]; omega)).1]

end QueueInv

namespace System

/-- The commands of a queue that were announced. -/
def sent (s : System) (id : QueueId) : Nat :=
  if s.waits id then s.returned id + 1 else s.returned id

/-- Both queues are as the numbers of their commands say, and each status that was checked is
that of its command. -/
structure Inv (s : System) : Prop where
  queues : ∀ id, QueueInv (s.queue id) (s.written id) (s.returned id) (s.sent id)
  checked : ∀ id k status, (k, status) ∈ s.checked id →
    ∃ entry, (s.written id)[k]? = some entry ∧ status = entry.status

variable {s : System}

theorem waits_of_idle (h : s.activity = .idle) (id : QueueId) : s.waits id = false := by
  rw [waits, h]

theorem sent_of_idle (h : s.activity = .idle) (id : QueueId) : s.sent id = s.returned id := by
  rw [sent, waits_of_idle h id, if_neg Bool.false_ne_true]

theorem sent_send (h : s.activity = .idle) (id : QueueId) (cmd : SubmissionQueueEntry)
    (checks : Bool) (id' : QueueId) :
    (s.send id cmd checks).sent id' = s.sent id' + if id' = id then 1 else 0 := by
  rw [sent_of_idle h]
  by_cases hid : id' = id
  · simp [sent, waits, System.send, hid]
  · simp [sent, waits, System.send, hid, Ne.symm hid]

theorem sent_leave {id : QueueId} {checks : Bool} (h : s.activity = .waiting id checks)
    (id' : QueueId) : (s.leave id checks).sent id' = s.sent id' := by
  rw [sent_of_idle (s := s.leave id checks) rfl]
  by_cases hid : id' = id
  · simp [sent, waits, System.leave, h, hid]
  · simp [sent, waits, System.leave, h, hid, Ne.symm hid]

theorem Start.inv (h : Start s) : Inv s := by
  refine ⟨fun id => ?_, fun id k status hmem => ?_⟩
  · rw [sent_of_idle h.activity, h.returned, h.written]
    refine ⟨.empty fun k _ => ?_, h.cqHead id, h.phase id, h.sqTail id, h.sqDoorbell id,
      Nat.le_refl 0, Nat.le_refl 0, Nat.zero_le _⟩
    rw [tagged, CompletionQueueEntry.phaseTag, h.zeroed]
    rfl
  · rw [h.checked] at hmem
    exact absurd hmem List.not_mem_nil

theorem Inv.send (h : Inv s) (hidle : s.activity = .idle) (id : QueueId)
    (cmd : SubmissionQueueEntry) (checks : Bool) : Inv (s.send id cmd checks) := by
  refine ⟨fun id' => ?_, h.checked⟩
  have hqueue := h.queues id'
  rw [sent_send hidle]
  by_cases hid : id' = id
  · subst hid
    rw [sent_of_idle hidle] at hqueue ⊢
    simp only [System.send, Function.update_self, if_pos]
    exact hqueue.submit cmd
  · simp only [System.send, Function.update_of_ne hid, if_neg hid]
    exact hqueue

theorem Inv.write (h : Inv s) (id : QueueId) {entry : CompletionQueueEntry}
    (hnew : (s.written id).length % 32 ≠ (s.queue id).sqDoorbell)
    (htag : entry.phaseTag = phaseOf (s.written id).length) : Inv (s.write id entry) := by
  have hsent : ∀ id', (s.write id entry).sent id' = s.sent id' := fun _ => rfl
  refine ⟨fun id' => ?_, fun id' k status hmem => ?_⟩
  · rw [hsent]
    by_cases hid : id' = id
    · subst hid
      simp only [System.write, Function.update_self]
      exact (h.queues id').write hnew htag
    · simp only [System.write, Function.update_of_ne hid]
      exact h.queues id'
  · obtain ⟨found, hfound, hstatus⟩ := h.checked id' k status hmem
    refine ⟨found, ?_, hstatus⟩
    by_cases hid : id' = id
    · subst hid
      simp only [System.write, Function.update_self]
      rw [List.getElem?_append_left (List.getElem?_eq_some_iff.mp hfound).1]
      exact hfound
    · simp only [System.write, Function.update_of_ne hid]
      exact hfound

theorem Inv.leave (h : Inv s) {id : QueueId} {checks : Bool}
    (hwaiting : s.activity = .waiting id checks) (hcompleted : (s.queue id).completed = true) :
    Inv (s.leave id checks) := by
  have hsent : s.sent id = s.returned id + 1 := by simp [sent, waits, hwaiting]
  have hqueue := h.queues id
  rw [hsent] at hqueue
  have hwritten := hqueue.completed_iff.mp hcompleted
  refine ⟨fun id' => ?_, fun id' k status hmem => ?_⟩
  · rw [sent_leave hwaiting]
    by_cases hid : id' = id
    · subst hid
      rw [hsent]
      simp only [System.leave, Function.update_self]
      exact hqueue.advance hwritten
    · simp only [System.leave, Function.update_of_ne hid]
      exact h.queues id'
  · simp only [System.leave] at hmem ⊢
    split at hmem
    · by_cases hid : id' = id
      · subst hid
        rw [Function.update_self, List.mem_append, List.mem_singleton] at hmem
        rcases hmem with hold | hnew
        · exact h.checked id' k status hold
        · obtain ⟨rfl, rfl⟩ := Prod.mk.inj hnew
          exact hqueue.doneStatus_eq hwritten
      · rw [Function.update_of_ne hid] at hmem
        exact h.checked id' k status hmem
    · exact h.checked id' k status hmem

/-- Every step keeps the invariant. -/
theorem Inv.step (h : Inv s) (op : Op) (hcan : s.Can op) : Inv (s.step op) := by
  cases op with
  | identifyController identifyData => exact h.send hcan .admin _ false
  | sendAdminCommand cmd => exact h.send hcan .admin cmd true
  | sendIOCommand cmd => exact h.send hcan .io cmd true
  | poll =>
    rw [System.step]
    cases hactivity : s.activity with
    | idle => exact h
    | waiting id checks =>
      simp only
      split
      · next hcompleted => exact h.leave hactivity hcompleted
      · exact h
  | complete id entry => exact h.write id hcan.1 hcan.2

end System

/-! ## What a run has sent and completed -/

namespace Op

/-- The command that a step of the driver sends on a queue. -/
def command (id : QueueId) : Op → List SubmissionQueueEntry
  | .identifyController identifyData =>
    if id = .admin then [System.identifyCommand identifyData] else []
  | .sendAdminCommand cmd => if id = .admin then [cmd] else []
  | .sendIOCommand cmd => if id = .io then [cmd] else []
  | .poll | .complete _ _ => []

/-- The completion entry that a step of the controller writes to a queue. -/
def completion (id : QueueId) : Op → List CompletionQueueEntry
  | .complete id' entry => if id = id' then [entry] else []
  | _ => []

end Op

/-- The commands that a run has sent on a queue, oldest first. -/
def commands (id : QueueId) (run : List (System × Op)) : List SubmissionQueueEntry :=
  run.reverse.flatMap fun x => x.2.command id

/-- The completion entries that the controller has written to a queue, oldest first. -/
def completions (id : QueueId) (run : List (System × Op)) : List CompletionQueueEntry :=
  run.reverse.flatMap fun x => x.2.completion id

@[simp] theorem commands_cons (id : QueueId) (s : System) (op : Op) (run : List (System × Op)) :
    commands id ((s, op) :: run) = commands id run ++ op.command id := by
  simp [commands]

@[simp] theorem completions_cons (id : QueueId) (s : System) (op : Op)
    (run : List (System × Op)) :
    completions id ((s, op) :: run) = completions id run ++ op.completion id := by
  simp [completions]

namespace System

variable {s : System} {run : List (System × Op)}

/-- The last 32 commands of a run are in their slots of the submission queue. -/
def Stored (q : QueuePair) (sent : List SubmissionQueueEntry) : Prop :=
  ∀ k cmd, sent[k]? = some cmd → sent.length ≤ k + queueDepth → q.sq (k % queueDepth) = cmd

theorem Stored.submit {q : QueuePair} {sent : List SubmissionQueueEntry} (h : Stored q sent)
    (htail : q.sqTail = sent.length % queueDepth) (cmd : SubmissionQueueEntry) :
    Stored (q.submit cmd) (sent ++ [cmd]) := by
  intro k found hfound hlast
  rw [List.length_append, List.length_singleton] at hlast
  show Function.update q.sq q.sqTail cmd (k % queueDepth) = found
  rw [htail]
  rcases Nat.lt_or_ge k sent.length with hk | hk
  · rw [List.getElem?_append_left hk] at hfound
    -- One pass has no two commands in one slot.
    have hslot : k % queueDepth ≠ sent.length % queueDepth := by
      rw [queueDepth] at hlast ⊢
      omega
    rw [Function.update_of_ne hslot]
    exact h k found hfound (by omega)
  · rw [List.getElem?_append_right hk] at hfound
    obtain ⟨hzero, rfl⟩ := List.getElem?_eq_some_iff.mp hfound
    obtain rfl : k = sent.length := by
      rw [List.length_singleton] at hzero
      omega
    simp

/-- The state and the steps that have led to it. -/
structure RunInv (run : List (System × Op)) (s : System) : Prop where
  inv : Inv s
  written : ∀ id, s.written id = completions id run
  sent : ∀ id, s.sent id = (commands id run).length
  stored : ∀ id, Stored (s.queue id) (commands id run)

theorem RunInv.send (h : RunInv run s) {op : Op} {id : QueueId} {cmd : SubmissionQueueEntry}
    {checks : Bool} (hidle : s.activity = .idle)
    (hcmd : ∀ id', op.command id' = if id' = id then [cmd] else [])
    (hnone : ∀ id', op.completion id' = []) :
    RunInv ((s, op) :: run) (s.send id cmd checks) := by
  refine ⟨h.inv.send hidle id cmd checks, fun id' => ?_, fun id' => ?_, fun id' => ?_⟩
  · rw [completions_cons, hnone, List.append_nil]
    exact h.written id'
  · rw [sent_send hidle, h.sent, commands_cons, hcmd, List.length_append]
    split <;> rfl
  · rw [commands_cons, hcmd]
    by_cases hid : id' = id
    · subst hid
      simp only [System.send, Function.update_self, if_pos]
      refine (h.stored id').submit ?_ cmd
      rw [(h.inv.queues id').sqTail, h.sent]
      rfl
    · simp only [System.send, Function.update_of_ne hid, if_neg hid, List.append_nil]
      exact h.stored id'

theorem RunInv.poll (h : RunInv run s) : RunInv ((s, .poll) :: run) (s.step .poll) := by
  have hcommands (id : QueueId) : commands id ((s, .poll) :: run) = commands id run := by
    simp [Op.command]
  have hcompletions (id : QueueId) : completions id ((s, .poll) :: run) = completions id run := by
    simp [Op.completion]
  have hstay : RunInv ((s, .poll) :: run) s := by
    refine ⟨h.inv, fun id => ?_, fun id => ?_, fun id => ?_⟩
    · rw [hcompletions]
      exact h.written id
    · rw [hcommands]
      exact h.sent id
    · rw [hcommands]
      exact h.stored id
  rw [System.step]
  cases hactivity : s.activity with
  | idle => exact hstay
  | waiting id checks =>
    dsimp only
    split
    · next hcompleted =>
      refine ⟨h.inv.leave hactivity hcompleted, hstay.written, fun id' => ?_, fun id' => ?_⟩
      · rw [sent_leave hactivity]
        exact hstay.sent id'
      · by_cases hid : id' = id
        · subst hid
          simp only [System.leave, Function.update_self]
          exact hstay.stored id'
        · simp only [System.leave, Function.update_of_ne hid]
          exact hstay.stored id'
    · exact hstay

theorem RunInv.write (h : RunInv run s) {id : QueueId} {entry : CompletionQueueEntry}
    (hcan : s.Can (.complete id entry)) :
    RunInv ((s, .complete id entry) :: run) (s.write id entry) := by
  refine ⟨h.inv.write id hcan.1 hcan.2, fun id' => ?_, fun id' => ?_, fun id' => ?_⟩
  · rw [completions_cons, ← h.written, Op.completion]
    by_cases hid : id' = id
    · subst hid
      simp only [System.write, Function.update_self, if_pos]
    · simp only [System.write, Function.update_of_ne hid, if_neg hid, List.append_nil]
  · rw [commands_cons, Op.command, List.append_nil]
    exact h.sent id'
  · rw [commands_cons, Op.command, List.append_nil]
    by_cases hid : id' = id
    · subst hid
      simp only [System.write, Function.update_self]
      exact h.stored id'
    · simp only [System.write, Function.update_of_ne hid]
      exact h.stored id'

theorem RunInv.step (h : RunInv run s) (op : Op) (hcan : s.Can op) :
    RunInv ((s, op) :: run) (s.step op) := by
  cases op with
  | identifyController identifyData => exact h.send hcan (fun _ => rfl) fun _ => rfl
  | sendAdminCommand cmd => exact h.send hcan (fun _ => rfl) fun _ => rfl
  | sendIOCommand cmd => exact h.send hcan (fun _ => rfl) fun _ => rfl
  | poll => exact h.poll
  | complete id entry => exact h.write hcan

/-- The driver behind its constructor, in memory that is all zero. -/
def fresh : System where
  queue _ := ⟨fun _ => {}, fun _ => ⟨0, 0, 0, 0, 0, 0⟩, 0, 0, 1, 0, 0⟩
  activity := .idle
  returned _ := 0
  checked _ := []
  written _ := []

theorem start_fresh : Start fresh :=
  ⟨fun _ _ => rfl, fun _ => rfl, fun _ => rfl, fun _ => rfl, fun _ => rfl, rfl, fun _ => rfl,
    fun _ => rfl, fun _ => rfl⟩

instance decidableCan (s : System) : (op : Op) → Decidable (s.Can op)
  | .identifyController _ | .sendAdminCommand _ | .sendIOCommand _ =>
    inferInstanceAs (Decidable (s.activity = .idle))
  | .poll => inferInstanceAs (Decidable (s.activity ≠ .idle))
  | .complete id entry => inferInstanceAs (Decidable ((s.written id).length % 32 ≠
      (s.queue id).sqDoorbell ∧ entry.phaseTag = phaseOf (s.written id).length))

/-- A command that is answered after the driver has polled once in vain. -/
def answered (n : Nat) : List Op :=
  [.sendIOCommand { opcode := 2, commandId := BitVec.ofNat 16 n }, .poll,
    .complete .io ⟨0, 0, 0, 0, BitVec.ofNat 16 n, BitVec.ofNat 16 (phaseOf n)⟩, .poll]

end System

end Sylphia.Nvme
