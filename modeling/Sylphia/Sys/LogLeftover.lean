import Sylphia.Sys.LogFile

/-!
# What is left over in the log

`Log` writes a message up to its NUL, and `Flush` copies the whole array. Behind the NUL a record
has what older messages left in the slot.
-/

namespace Sylphia

open Bytes

namespace EventLogger

/-- The logger after these calls. -/
def logAll (memory : Nat → Buffer) (calls : List LogCall) : EventLogger :=
  calls.foldl log (.create memory)

/-- The entry of a call behind others. -/
def entryAfter (memory : Nat → Buffer) (calls : List LogCall) (call : LogCall) : LogEntry :=
  ((logAll memory calls).log call).buffer (calls.length % logBufferSize)

/-- The array that the call finds in its slot. -/
def foundArray (memory : Nat → Buffer) (calls : List LogCall) : Buffer :=
  ((logAll memory calls).buffer (calls.length % logBufferSize)).message

variable {memory memory' : Nat → Buffer} {calls before after : List LogCall}

theorem logAll_append (memory : Nat → Buffer) (calls : List LogCall) (call : LogCall) :
    logAll memory (calls ++ [call]) = (logAll memory calls).log call :=
  List.foldl_concat ..

theorem recorded_logAll (memory : Nat → Buffer) (calls : List LogCall) :
    Recorded (logAll memory calls) calls := by
  induction calls using List.reverseRecOn with
  | nil => exact .create memory
  | append_singleton calls call ih =>
    rw [logAll_append]
    exact ih.log call

theorem entryAfter_eq (memory : Nat → Buffer) (calls : List LogCall) (call : LogCall) :
    entryAfter memory calls call =
      { timestamp := BitVec.ofNat 64 calls.length
        level := call.level
        type := call.type
        message := strCopy (foundArray memory calls) call.message 128
        isFlushed := false } := by
  have h := recorded_logAll memory calls
  rw [entryAfter, foundArray, ← h.head, log, ← h.tickCounter]
  exact Function.update_self ..

/-- An entry stays as it is until 256 others were logged. -/
theorem buffer_logAll (memory : Nat → Buffer) (before : List LogCall) (call : LogCall)
    (hafter : after.length < logBufferSize) :
    (logAll memory (before ++ call :: after)).buffer (before.length % logBufferSize) =
      entryAfter memory before call := by
  induction after using List.reverseRecOn with
  | nil => rw [logAll_append, entryAfter]
  | append_singleton after last ih =>
    rw [List.length_append, List.length_singleton] at hafter
    rw [← ih (by omega), show before ++ call :: (after ++ [last]) =
      before ++ call :: after ++ [last] by simp, logAll_append, buffer_log_of_ne]
    rw [(recorded_logAll _ _).head, List.length_append, List.length_cons]
    exact RecentRing.mod_ne_of_lt (by omega) (by omega)

/-- A slot that was not used is as it was found in memory. -/
theorem buffer_logAll_of_le (memory : Nat → Buffer) {j : Nat} (hcalls : calls.length ≤ j)
    (hj : j < logBufferSize) :
    (logAll memory calls).buffer j = (create memory).buffer j := by
  induction calls using List.reverseRecOn with
  | nil => rfl
  | append_singleton calls call ih =>
    rw [List.length_append, List.length_singleton] at hcalls
    rw [logAll_append, buffer_log_of_ne _ _ ?_, ih (by omega)]
    rw [(recorded_logAll _ _).head, Nat.mod_eq_of_lt (by omega)]
    omega

theorem message_log (logger : EventLogger) (call : LogCall) (j : Nat) :
    ((logger.log call).buffer j).message =
      if j = logger.head then strCopy (logger.buffer j).message call.message 128
      else (logger.buffer j).message := by
  by_cases hj : j = logger.head
  · rw [if_pos hj, hj, log]
    simp only [Function.update_self]
  · rw [if_neg hj, buffer_log_of_ne _ _ hj]

end EventLogger

/-- Behind the NUL a copy leaves the array as it was. -/
theorem strCopy_of_lt (dst : Buffer) (src : List Byte) {p : Nat}
    (h : (chars src).length < p) : strCopy dst src 128 p = dst p := by
  rw [strCopy, strCopyLoop_eq]
  refine splice_of_ge ?_
  rw [List.length_append, List.length_take, List.length_singleton]
  omega

/-- Up to the NUL it does not matter what was there. -/
theorem strCopy_of_le (dst dst' : Buffer) (src : List Byte) {p : Nat}
    (h : p ≤ min (chars src).length 127) : strCopy dst src 128 p = strCopy dst' src 128 p := by
  have hlt : p < ((chars src).take (128 - 1) ++ [0]).length := by
    rw [List.length_append, List.length_take, List.length_singleton]
    omega
  rw [strCopy, strCopy, strCopyLoop_eq, strCopyLoop_eq, splice, splice, if_pos (Nat.zero_le p),
    if_pos (Nat.zero_le p), Nat.sub_zero, List.getElem?_eq_getElem hlt]
  rfl

/-- The last character of an array is never that of a message. -/
theorem strCopy_last (dst : Buffer) (src : List Byte) (h : dst 127 = 0) :
    strCopy dst src 128 127 = 0 := by
  rcases Nat.lt_or_ge (chars src).length 127 with hlt | hge
  · rw [strCopy_of_lt dst src hlt, h]
  · have hlength : ((chars src).take 127).length = 127 := by
      rw [List.length_take]
      omega
    rw [strCopy, strCopyLoop_eq, splice, if_pos (Nat.zero_le _), Nat.sub_zero,
      List.getElem?_append_right hlength.le, hlength]
    rfl

/-- Entries that differ in their arrays at most have the same bytes if the arrays are the same. -/
theorem LogEntry.bytes_eq_iff {e e' : LogEntry} (htimestamp : e.timestamp = e'.timestamp)
    (hlevel : e.level = e'.level) (htype : e.type = e'.type) :
    e.toBinary.bytes = e'.toBinary.bytes ↔ ∀ p < 128, e.message p = e'.message p := by
  constructor
  · intro h p hp
    have hparsed := congrArg LogEntryBinary.parse h
    rw [LogEntryBinary.parse_bytes (length_message_toBinary e),
      LogEntryBinary.parse_bytes (length_message_toBinary e')] at hparsed
    have htext := List.append_cancel_right (congrArg LogEntryBinary.message hparsed)
    have hchar := congrArg (fun s : List Byte => s[p]?) htext
    simpa [LogEntry.text, slice, hp] using hchar
  · intro h
    have htext : e.text = e'.text := by
      rw [LogEntry.text, LogEntry.text, slice, slice]
      refine List.map_congr_left fun p hp => ?_
      rw [Nat.zero_add]
      exact h p (List.mem_range.mp hp)
    rw [LogEntry.toBinary, LogEntry.toBinary, htimestamp, hlevel, htype, htext]

namespace EventLogger

variable {memory memory' : Nat → Buffer} {calls calls' : List LogCall} {call : LogCall}

/-- The record of a call behind others. -/
def recordAfter (memory : Nat → Buffer) (calls : List LogCall) (call : LogCall) : LogEntryBinary :=
  (entryAfter memory calls call).toBinary

/-- The records of an entry behind two histories differ in what they find behind the NUL. -/
theorem bytes_recordAfter_eq_iff
    (htimestamp : BitVec.ofNat 64 calls.length = BitVec.ofNat 64 calls'.length) :
    (recordAfter memory calls call).bytes = (recordAfter memory' calls' call).bytes ↔
      ∀ p, (chars call.message).length < p → p < 128 →
        foundArray memory calls p = foundArray memory' calls' p := by
  rw [recordAfter, recordAfter, entryAfter_eq, entryAfter_eq]
  refine Iff.trans (LogEntry.bytes_eq_iff ?_ ?_ ?_) ?_
  · exact htimestamp
  · rfl
  · rfl
  dsimp only
  constructor
  · intro h p hp hlast
    have hchar := h p hlast
    rwa [strCopy_of_lt _ _ hp, strCopy_of_lt _ _ hp] at hchar
  · intro h p hlast
    rcases Nat.lt_or_ge (chars call.message).length p with hbehind | hwithin
    · rw [strCopy_of_lt _ _ hbehind, strCopy_of_lt _ _ hbehind]
      exact h p hbehind hlast
    · exact strCopy_of_le _ _ _ (by omega)

theorem message_logAll_last {j : Nat} (hmemory : memory j 127 = 0) (calls : List LogCall) :
    ((logAll memory calls).buffer j).message 127 = 0 := by
  induction calls using List.reverseRecOn with
  | nil => exact hmemory
  | append_singleton calls call ih =>
    rw [logAll_append, message_log]
    split
    · exact strCopy_last _ _ ih
    · exact ih

/-- An empty message. -/
def quiet : LogCall := ⟨.info, .kernel, []⟩

/-- Empty messages leave the arrays as they were found in memory. -/
theorem message_logAll_quiet (memory : Nat → Buffer) (n j : Nat) {p : Nat} (hp : 0 < p) :
    ((logAll memory (List.replicate n quiet)).buffer j).message p = memory j p := by
  induction n with
  | zero => exact Function.update_of_ne hp.ne' _ _
  | succ n ih =>
    rw [List.replicate_succ', logAll_append, message_log]
    split
    · rw [strCopy_of_lt _ _ hp, ih]
    · exact ih

/-- What 255 empty messages leave of the one before them. -/
theorem foundArray_quiet (memory : Nat → Buffer) (before : List LogCall) (call : LogCall) :
    foundArray memory (before ++ call :: List.replicate 255 quiet) =
      strCopy (foundArray memory before) call.message 128 := by
  have hslot : (before ++ call :: List.replicate 255 quiet).length % logBufferSize =
      before.length % logBufferSize := by
    rw [List.length_append, List.length_cons, List.length_replicate]
    exact Nat.add_mod_right _ 256
  rw [foundArray, hslot, buffer_logAll, entryAfter_eq]
  rw [List.length_replicate]
  decide

/-- The record is that of one of the calls, behind those before it. -/
def IsRecord (memory : Nat → Buffer) (calls : List LogCall) (bin : LogEntryBinary) : Prop :=
  ∃ before call after, calls = before ++ call :: after ∧ bin = recordAfter memory before call

theorem IsRecord.append {bin : LogEntryBinary} (h : IsRecord memory calls bin)
    (more : List LogCall) : IsRecord memory (calls ++ more) bin := by
  obtain ⟨before, call, after, rfl, hbin⟩ := h
  exact ⟨before, call, after ++ more, by rw [List.append_assoc, List.cons_append], hbin⟩

/-- An entry without its mark. -/
def unmarked (entry : LogEntry) : LogEntry := { entry with isFlushed := false }

/-- The logger holds what `Log` alone left, up to the marks. -/
structure Kept (memory : Nat → Buffer) (logger : EventLogger) (calls : List LogCall) : Prop where
  recorded : Recorded logger calls
  buffer : ∀ j, unmarked (logger.buffer j) = unmarked ((logAll memory calls).buffer j)

namespace Kept

variable {logger : EventLogger}

theorem create (memory : Nat → Buffer) : Kept memory (.create memory) [] :=
  ⟨.create memory, fun _ => rfl⟩

theorem log (h : Kept memory logger calls) (call : LogCall) :
    Kept memory (logger.log call) (calls ++ [call]) := by
  have hall := recorded_logAll memory calls
  refine ⟨h.recorded.log call, fun j => ?_⟩
  rw [logAll_append]
  by_cases hj : j = calls.length % logBufferSize
  · have hmessage := congrArg LogEntry.message (h.buffer j)
    change (logger.buffer j).message = ((logAll memory calls).buffer j).message at hmessage
    rw [EventLogger.log, EventLogger.log, h.recorded.head, hall.head, h.recorded.tickCounter,
      hall.tickCounter, hj]
    rw [hj] at hmessage
    simp only [Function.update_self, hmessage]
  · rw [buffer_log_of_ne _ _ (by rwa [h.recorded.head]), buffer_log_of_ne _ _ (by rwa [hall.head])]
    exact h.buffer j

theorem markFlushed (h : Kept memory logger calls) (idx : Nat) :
    Kept memory (logger.markFlushed idx) calls := by
  refine ⟨h.recorded.markFlushed idx, fun j => ?_⟩
  rw [← h.buffer, buffer_markFlushed]
  split <;> rfl

/-- The record of an entry in the ring is that of its call. -/
theorem isRecord (h : Kept memory logger calls) {i : Nat} (hi : i < logger.count) :
    IsRecord memory calls (logger.buffer (logger.flushIdx i)).toBinary := by
  have hall := h.recorded.oldestCall_add_count
  have hold := oldestCall_eq calls
  have hk : oldestCall calls + i < calls.length := by omega
  obtain ⟨k, hdef⟩ : ∃ k, k = oldestCall calls + i := ⟨_, rfl⟩
  rw [← hdef] at hk
  refine ⟨calls.take k, calls[k], calls.drop (k + 1), ?_, ?_⟩
  · rw [← List.drop_eq_getElem_cons hk, List.take_append_drop]
  · have hslot := @buffer_logAll (calls.drop (k + 1)) memory (calls.take k) calls[k]
      (by rw [List.length_drop, logBufferSize]; omega)
    rw [← List.drop_eq_getElem_cons hk, List.take_append_drop, List.length_take_of_le hk.le]
      at hslot
    rw [recordAfter, ← hslot, h.recorded.flushIdx_eq hi, ← hdef]
    have hsame := congrArg LogEntry.toBinary (h.buffer (k % logBufferSize))
    exact hsame

theorem flushLoop (h : Kept memory logger calls) {flushCount n i : Nat}
    {bins : List LogEntryBinary} (hi : i + n = logger.count)
    (hbins : ∀ bin ∈ bins, IsRecord memory calls bin) :
    Kept memory (EventLogger.flushLoop flushCount n i logger bins).1 calls ∧
      ∀ bin ∈ (EventLogger.flushLoop flushCount n i logger bins).2, IsRecord memory calls bin := by
  induction n generalizing i logger bins with
  | zero => exact ⟨h, hbins⟩
  | succ n ih =>
    simp only [EventLogger.flushLoop]
    split
    · exact ⟨h, hbins⟩
    · split
      · exact ih h (by omega) hbins
      · refine ih (h.markFlushed _) (show i + 1 + n = logger.count by omega) fun bin hbin => ?_
        rcases List.mem_append.mp hbin with hbin | hbin
        · exact hbins bin hbin
        · rw [List.mem_singleton.mp hbin]
          exact h.isRecord (by omega)

variable {σ : Type*} (fs : LogFileSystem σ)

theorem flush (h : Kept memory logger calls) (mounted allocated : Bool) (disk : σ) :
    Kept memory (logger.flush fs mounted allocated disk).1 calls ∧
      ∀ bin ∈ logger.flushedBins mounted allocated, IsRecord memory calls bin := by
  have hloop := @Kept.flushLoop memory calls logger h logger.flushCount logger.count 0 []
    (Nat.zero_add logger.count) fun bin hbin => absurd hbin List.not_mem_nil
  rw [EventLogger.flush, flushedBins]
  cases mounted with
  | false => exact ⟨h, fun bin hbin => absurd hbin List.not_mem_nil⟩
  | true =>
    by_cases hidle : logger.entriesToFlush = 0
    · simp only [hidle, if_true]
      exact ⟨h, fun bin hbin => absurd hbin List.not_mem_nil⟩
    · cases allocated with
      | false =>
        simp only [hidle, if_false]
        exact ⟨h, fun bin hbin => absurd hbin List.not_mem_nil⟩
      | true =>
        simp only [hidle, if_false]
        exact hloop

/-- Whatever is logged and flushed, each record that is written is that of a call. -/
theorem run (h : Kept memory logger calls) (disk : σ) (ops : List LoggerCall) :
    ∀ bin ∈ flushedDuring fs (logger, disk) ops, IsRecord memory (calls ++ logCalls ops) bin := by
  induction ops generalizing logger calls disk with
  | nil => exact fun bin hbin => absurd hbin List.not_mem_nil
  | cons op ops ih =>
    cases op with
    | log call =>
      have hnext := ih (h.log call) disk
      rwa [List.append_assoc, List.singleton_append] at hnext
    | flush mounted allocated =>
      obtain ⟨hkept, hbins⟩ := h.flush fs mounted allocated disk
      intro bin hbin
      rcases List.mem_append.mp hbin with hbin | hbin
      · exact (hbins bin hbin).append _
      · exact ih hkept _ bin hbin

end Kept

/-- Behind so many calls every two histories, in the same memory, leave the same bytes: no other
call used the slot, or the message goes up to the end of the array, or only the last character is
behind the NUL, which no message writes, and it is 0 from the start. -/
def Settled (memory : Nat → Buffer) (n : Nat) (call : LogCall) : Prop :=
  n < 256 ∨ 127 ≤ (chars call.message).length ∨
    (chars call.message).length = 126 ∧ memory (n % 256) 127 = 0

/-- A message that fills the array with one character. -/
def loud (c : Byte) : LogCall := ⟨.info, .kernel, List.replicate 127 c⟩

theorem chars_loud {c : Byte} (hc : c ≠ 0) : chars (loud c).message = List.replicate 127 c := by
  refine List.takeWhile_eq_self_iff.mpr fun b hb => ?_
  rw [List.eq_of_mem_replicate hb, bne_iff_ne]
  exact hc

theorem strCopy_loud (dst : Buffer) {c : Byte} (hc : c ≠ 0) {p : Nat} (hp : p < 128) :
    strCopy dst (loud c).message 128 p = if p < 127 then c else 0 := by
  rw [strCopy, strCopyLoop_eq, chars_loud hc, splice, if_pos (Nat.zero_le p), Nat.sub_zero,
    List.take_of_length_le List.length_replicate.le]
  split
  · next hlt =>
    rw [List.getElem?_append_left (by rwa [List.length_replicate]),
      List.getElem?_replicate_of_lt hlt, Option.getD_some]
  · next hge =>
    have hlast : p = 127 := by omega
    rw [hlast, List.getElem?_append_right List.length_replicate.le, List.length_replicate]
    rfl

/-- The record of an entry is the same behind every two histories exactly in these cases. -/
theorem bytes_recordAfter_eq_forall_iff (memory : Nat → Buffer) (n : Nat) (call : LogCall) :
    (∀ calls calls' : List LogCall, calls.length = n → calls'.length = n →
      (recordAfter memory calls call).bytes = (recordAfter memory calls' call).bytes) ↔
      Settled memory n call := by
  constructor
  · intro hsame
    by_contra hopen
    rw [Settled, not_or, not_or, Nat.not_lt, Nat.not_le, not_and] at hopen
    obtain ⟨hturn, hshort, hlast⟩ := hopen
    obtain ⟨m, rfl⟩ := Nat.exists_eq_add_of_le' hturn
    obtain ⟨p, hp⟩ : ∃ p, p = (chars call.message).length + 1 := ⟨_, rfl⟩
    -- A full message of another character than the one that the memory has behind the NUL.
    obtain ⟨c, hc, hne⟩ : ∃ c : Byte, c ≠ 0 ∧ c ≠ memory ((m + 256) % 256) p := by
      by_cases hone : memory ((m + 256) % 256) p = 1
      · exact ⟨2, by decide, by rw [hone]; decide⟩
      · exact ⟨1, by decide, Ne.symm hone⟩
    have hfilled : (List.replicate m quiet ++ loud c :: List.replicate 255 quiet).length =
        m + 256 := by
      rw [List.length_append, List.length_cons, List.length_replicate, List.length_replicate]
    have hquiet : (List.replicate (m + 256) quiet).length = m + 256 := List.length_replicate
    have hfound := (bytes_recordAfter_eq_iff (by rw [hfilled, hquiet])).mp
      (hsame _ _ hfilled hquiet) p (by omega) (by omega)
    rw [foundArray_quiet, strCopy_loud _ hc (by omega), foundArray,
      message_logAll_quiet _ _ _ (by omega), List.length_replicate] at hfound
    split at hfound
    · exact hne hfound
    · exact hlast (by omega) (by rw [logBufferSize] at hfound; rw [hfound]; congr 1; omega)
  · intro hsettled calls calls' hcalls hcalls'
    refine (bytes_recordAfter_eq_iff (by rw [hcalls, hcalls'])).mpr fun p hp hp128 => ?_
    rw [foundArray, foundArray, hcalls, hcalls']
    rcases hsettled with hfew | hfull | ⟨hlength, hzero⟩
    · have hslot : n % logBufferSize = n := Nat.mod_eq_of_lt hfew
      rw [hslot, buffer_logAll_of_le memory hcalls.le hfew,
        buffer_logAll_of_le memory hcalls'.le hfew]
    · omega
    · have hlast : p = 127 := by omega
      rw [hlast]
      exact (message_logAll_last hzero calls).trans (message_logAll_last hzero calls').symm

/-- In every run each record that `Flush` writes is the one that `Log` left. Behind two histories
with the same timestamp the bytes of an entry are the same exactly if its slot held the same behind
the NUL, and behind every two exactly in the settled cases. -/
theorem flush_bytes_determined_iff {σ : Type*} (fs : LogFileSystem σ) (disk : σ)
    (ops : List LoggerCall) (memory : Nat → Buffer) (n : Nat) (call : LogCall) :
    (∀ bin ∈ flushedDuring fs (.create memory, disk) ops, IsRecord memory (logCalls ops) bin) ∧
    (∀ (memory' : Nat → Buffer) (calls calls' : List LogCall),
      BitVec.ofNat 64 calls.length = BitVec.ofNat 64 calls'.length →
        ((recordAfter memory calls call).bytes = (recordAfter memory' calls' call).bytes ↔
          ∀ p, (chars call.message).length < p → p < 128 →
            foundArray memory calls p = foundArray memory' calls' p)) ∧
    ((∀ calls calls' : List LogCall, calls.length = n → calls'.length = n →
      (recordAfter memory calls call).bytes = (recordAfter memory calls' call).bytes) ↔
        Settled memory n call) :=
  ⟨(Kept.create memory).run fs disk ops, fun _ _ _ => bytes_recordAfter_eq_iff,
    bytes_recordAfter_eq_forall_iff memory n call⟩

/-- `KEY=1234` -/
def secret : LogCall := ⟨.warning, .driver, [0x4b, 0x45, 0x59, 0x3d, 0x31, 0x32, 0x33, 0x34]⟩

/-- A full message hides what was in its slot. -/
theorem flush_bytes_determined_full :
    (recordAfter (fun _ _ => 0) (secret :: List.replicate 255 quiet) (loud 1)).bytes =
      (recordAfter (fun _ _ => 0) (List.replicate 256 quiet) (loud 1)).bytes := by
  have hfull : 127 ≤ (chars (loud 1).message).length := by
    rw [chars_loud (by decide), List.length_replicate]
  exact (flush_bytes_determined_iff oneFile none [] (fun _ _ => 0) 256 (loud 1)).2.2.mpr
    (.inr (.inl hfull)) _ _ (congrArg (· + 1) List.length_replicate) List.length_replicate

/-- A message of one character shows what was in its slot. -/
theorem flush_bytes_leak :
    (recordAfter (fun _ _ => 0) (secret :: List.replicate 255 quiet)
        ⟨.info, .kernel, [0x41]⟩).bytes ≠
      (recordAfter (fun _ _ => 0) (List.replicate 256 quiet) ⟨.info, .kernel, [0x41]⟩).bytes ∧
    (recordAfter (fun _ _ => 0) (secret :: List.replicate 255 quiet)
      ⟨.info, .kernel, [0x41]⟩).message.take 8 = [0x41, 0, 0x59, 0x3d, 0x31, 0x32, 0x33, 0x34] := by
  have hsecret := foundArray_quiet (fun _ _ => 0) [] secret
  have hquiet : foundArray (fun _ _ => 0) (List.replicate 256 quiet) =
      strCopy (foundArray (fun _ _ => 0) []) quiet.message 128 := foundArray_quiet _ [] quiet
  rw [List.nil_append] at hsecret
  rw [recordAfter, recordAfter, entryAfter_eq, entryAfter_eq, hsecret, hquiet]
  exact ⟨by decide +kernel, by decide +kernel⟩

end EventLogger

end Sylphia
