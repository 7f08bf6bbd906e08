import Mathlib.Data.List.TakeWhile
import Sylphia.Sys.Logger

/-!
# What the logger answers

Whatever was logged and flushed, the queries of the logger answer for the last 256 calls of
`Log`, in their order. The substring search, the ring and the paging are treated one by one.
-/

namespace Sylphia

open Bytes

theorem chars_cons (c : Byte) (s : List Byte) :
    chars (c :: s) = if c = 0 then [] else c :: chars s := by
  rw [chars, List.takeWhile_cons]
  by_cases hc : c = 0
  · rw [if_pos hc, if_neg (by simpa using hc)]
  · rw [if_neg hc, if_pos (by simpa using hc)]
    rfl

theorem strLen_eq (s : List Byte) : strLen s = (chars s).length := by
  induction s with
  | nil => rfl
  | cons c s ih =>
    rw [strLen, chars_cons]
    split
    · rfl
    · rw [ih, List.length_cons]

theorem ne_zero_of_mem_chars {s : List Byte} {c : Byte} (h : c ∈ chars s) : c ≠ 0 := by
  simpa using List.mem_takeWhile_imp h

theorem chars_append_nul {s : List Byte} (t : List Byte) (h : ∀ c ∈ s, c ≠ 0) :
    chars (s ++ 0 :: t) = s := by
  rw [chars, List.takeWhile_append_of_pos fun c hc => by simpa using h c hc,
    List.takeWhile_cons_of_neg (by decide), List.append_nil]

/-- Writing one byte, and then those behind it. -/
theorem splice_update (buf : Buffer) (i : Nat) (c : Byte) (bytes : List Byte) :
    splice (Function.update buf i c) (i + 1) bytes = splice buf i (c :: bytes) := by
  funext k
  rcases Nat.lt_trichotomy k i with hlt | rfl | hgt
  · rw [splice_of_lt (by omega), splice_of_lt hlt, Function.update_of_ne (by omega)]
  · rw [splice_of_lt (by omega), Function.update_self, splice, if_pos (Nat.le_refl k),
      Nat.sub_self]
    rfl
  · obtain ⟨d, hd⟩ := Nat.exists_eq_add_of_lt hgt
    rw [splice, splice, if_pos (by omega), if_pos (by omega), Function.update_of_ne (by omega),
      show k - (i + 1) = d by omega, show k - i = d + 1 by omega, List.getElem?_cons_succ]

theorem splice_nul (buf : Buffer) (i : Nat) : splice buf i [0] = Function.update buf i 0 := by
  funext k
  by_cases hk : k = i
  · rw [hk, Function.update_self, splice, if_pos (Nat.le_refl i), Nat.sub_self]
    rfl
  · rw [Function.update_of_ne hk]
    rcases Nat.lt_or_gt_of_ne hk with hlt | hgt
    · exact splice_of_lt hlt
    · exact splice_of_ge (by rw [List.length_singleton]; omega)

/-- A copy writes the characters that there is room for, and a NUL. -/
theorem strCopyLoop_eq (room : Nat) (dst : Buffer) (src : List Byte) (i : Nat) :
    strCopyLoop room dst src i = splice dst i ((chars src).take room ++ [0]) := by
  induction room generalizing dst src i with
  | zero => rw [strCopyLoop, List.take_zero, List.nil_append, splice_nul]; nofun
  | succ room ih =>
    cases src with
    | nil => rw [strCopyLoop, chars, List.takeWhile_nil, List.take_nil, List.nil_append,
      splice_nul]; nofun
    | cons c src =>
      rw [strCopyLoop, chars_cons]
      split
      · rw [List.take_nil, List.nil_append, splice_nul]
      · rw [ih, splice_update, List.take_succ_cons, List.cons_append]

/-- A message is stored up to its 127th character. -/
theorem chars_strCopy (dst : Buffer) (src : List Byte) :
    chars (slice (strCopy dst src 128) 0 128) = (chars src).take 127 := by
  rw [strCopy, strCopyLoop_eq]
  generalize htext : (chars src).take (128 - 1) = text
  have hlen : text.length ≤ 127 := by
    rw [← htext, List.length_take]
    omega
  obtain ⟨rest, hrest⟩ := Nat.exists_eq_add_of_le (show (text ++ [0]).length ≤ 128 by
    rw [List.length_append, List.length_singleton]
    omega)
  rw [hrest, slice_add, slice_splice_self, List.append_assoc, List.singleton_append,
    chars_append_nul]
  intro c hc
  rw [← htext] at hc
  exact ne_zero_of_mem_chars (List.mem_of_mem_take hc)

theorem getElem?_chars {s : List Byte} {j : Nat} (h : j < (chars s).length) :
    (chars s)[j]? = some (s.getD j 0) := by
  have hfirst : chars s <+: s := List.takeWhile_prefix _
  rw [List.getElem?_eq_getElem h, hfirst.getElem h, List.getD_eq_getElem?_getD,
    List.getElem?_eq_getElem (h.trans_le hfirst.length_le), Option.getD_some]

/-- The search finds exactly the contiguous parts. -/
theorem strContains_iff (haystack needle : List Byte) :
    strContains haystack needle = true ↔ chars needle <:+: chars haystack := by
  rw [strContains, strLen_eq, strLen_eq]
  by_cases hempty : (chars needle).length = 0
  · rw [if_pos hempty, List.length_eq_zero_iff.mp hempty]
    simp
  rw [if_neg hempty, List.infix_iff_getElem?]
  by_cases hlong : (chars needle).length > (chars haystack).length
  · rw [if_pos hlong]
    constructor
    · exact nofun
    · rintro ⟨k, hk, _⟩
      omega
  rw [if_neg hlong, List.any_eq_true]
  constructor
  · rintro ⟨i, hi, hall⟩
    rw [List.mem_range] at hi
    refine ⟨i, by omega, fun j hj => ?_⟩
    have hchar := List.all_eq_true.mp hall j (List.mem_range.mpr hj)
    rw [beq_iff_eq] at hchar
    rw [Nat.add_comm, getElem?_chars (by omega), hchar, ← getElem?_chars hj,
      List.getElem?_eq_getElem hj]
  · rintro ⟨i, hi, hall⟩
    refine ⟨i, List.mem_range.mpr (by omega), ?_⟩
    rw [List.all_eq_true]
    intro j hj
    rw [List.mem_range] at hj
    have hchar := hall j hj
    rw [Nat.add_comm, getElem?_chars (by omega), ← List.getElem?_eq_getElem hj, getElem?_chars hj,
      Option.some.injEq] at hchar
    rw [beq_iff_eq]
    exact hchar

/-- What is recorded of a call of `Log`. -/
structure LogRecord where
  timestamp : BitVec 64
  level : LogLevel
  type : LogType
  text : List Byte
  deriving DecidableEq

/-- The record of the `k`-th call. -/
def recordOf (k : Nat) (call : LogCall) : LogRecord where
  timestamp := BitVec.ofNat 64 k
  level := call.level
  type := call.type
  text := (chars call.message).take 127

/-- The records of all calls, the oldest first. -/
def records (calls : List LogCall) : List LogRecord := calls.mapIdx recordOf

/-- The filters on a record; a keyword passes when it is a contiguous part of the text. -/
def passes (filter : LogFilter) (r : LogRecord) : Bool :=
  filter.level.all (r.level == ·) && filter.type.all (r.type == ·) &&
    filter.keyword.all fun keyword => chars keyword <:+: r.text

/-- The records among the last 256 that pass the filters. -/
def recentPassing (calls : List LogCall) (filter : LogFilter) : List LogRecord :=
  ((records calls).drop (calls.length - min calls.length 256)).filter (passes filter)

/-- What an entry records. -/
def LogEntry.record (entry : LogEntry) : LogRecord where
  timestamp := entry.timestamp
  level := entry.level
  type := entry.type
  text := chars entry.text

@[simp] theorem length_records (calls : List LogCall) : (records calls).length = calls.length :=
  List.length_mapIdx

theorem records_append (calls : List LogCall) (call : LogCall) :
    records (calls ++ [call]) = records calls ++ [recordOf calls.length call] := by
  rw [records, List.mapIdx_append, List.mapIdx_singleton, Nat.zero_add]
  rfl

theorem any_not {α : Type*} (o : Option α) (p : α → Bool) : o.any (!p ·) = !o.all p := by
  cases o <;> rfl

/-- The filters of the code are those on the record. -/
theorem matchesFilter_eq (entry : LogEntry) (filter : LogFilter) :
    matchesFilter entry filter = passes filter entry.record := by
  have hlevel : filter.level.any (entry.level != ·) =
      !filter.level.all (entry.record.level == ·) := by
    rw [← any_not]
    rfl
  have htype : filter.type.any (entry.type != ·) = !filter.type.all (entry.record.type == ·) := by
    rw [← any_not]
    rfl
  have hkeyword : filter.keyword.any (!strContains entry.text ·) =
      !filter.keyword.all fun keyword => chars keyword <:+: entry.record.text := by
    rw [any_not]
    congr 2
    funext keyword
    rw [Bool.eq_iff_iff, strContains_iff, decide_eq_true_iff]
    rfl
  rw [matchesFilter, passes, hlevel, htype, hkeyword]
  cases filter.level.all (entry.record.level == ·) <;>
    cases filter.type.all (entry.record.type == ·) <;> simp

/-- The logger holds the last of the calls. -/
structure Recorded (logger : EventLogger) (calls : List LogCall) : Prop where
  head : logger.head = calls.length % logBufferSize
  count : logger.count = min calls.length logBufferSize
  tickCounter : logger.tickCounter = BitVec.ofNat 64 calls.length
  holds : RecentRing.Holds LogEntry.record logBufferSize (records calls) logger.buffer

namespace Recorded

variable {logger : EventLogger} {calls : List LogCall}

theorem create (memory : Nat → Buffer) : Recorded (.create memory) [] :=
  ⟨rfl, rfl, rfl, .empty⟩

theorem log (h : Recorded logger calls) (call : LogCall) :
    Recorded (logger.log call) (calls ++ [call]) := by
  have hlen : (calls ++ [call]).length = calls.length + 1 := by simp
  refine ⟨?_, ?_, ?_, ?_⟩
  · rw [EventLogger.log, hlen, h.head, Nat.mod_add_mod]
  · rw [EventLogger.log, hlen, h.count]
    simp only
    split <;> omega
  · rw [EventLogger.log, hlen, h.tickCounter, BitVec.ofNat_add]
    rfl
  · rw [records_append]
    have hrecord : recordOf calls.length call = LogEntry.record
        { timestamp := logger.tickCounter
          level := call.level
          type := call.type
          message := strCopy (logger.buffer logger.head).message call.message 128
          isFlushed := false } := by
      rw [recordOf, LogEntry.record, h.tickCounter, LogEntry.text, chars_strCopy]
    rw [hrecord, EventLogger.log]
    simp only
    have hslot : logger.head = (records calls).length % logBufferSize := by
      rw [length_records, h.head]
    rw [hslot]
    exact h.holds.write _

/-- The queries visit the last of the records, the oldest first. -/
theorem map_visited (h : Recorded logger calls) :
    logger.visited.map LogEntry.record =
      (records calls).drop (calls.length - min calls.length 256) := by
  have hwindow := h.holds.map_window
  rw [length_records] at hwindow
  rw [EventLogger.visited, List.map_map, h.count]
  rw [show calls.length - min calls.length 256 = RecentRing.oldest logBufferSize calls.length
    from rfl, ← hwindow]
  apply List.map_congr_left
  intro i _
  rw [Function.comp, EventLogger.startIdx, h.count, h.head, RecentRing.cell_eq]

end Recorded

namespace EventLogger

/-- The loop of `GetLogs` leaves out the first entries that pass and takes the next ones. -/
theorem getLogsLoop_eq (filter : LogFilter) (count offset : Nat) (entries retrieved : List LogEntry)
    (skipped : Nat) (hroom : retrieved.length < count) (hskipped : skipped ≤ offset) :
    getLogsLoop filter count offset entries retrieved skipped =
      retrieved ++ ((entries.filter (matchesFilter · filter)).drop (offset - skipped)).take
        (count - retrieved.length) := by
  induction entries generalizing retrieved skipped with
  | nil => simp [getLogsLoop]
  | cons entry entries ih =>
    rw [getLogsLoop]
    by_cases hmatch : matchesFilter entry filter = true
    · rw [List.filter_cons_of_pos (p := (matchesFilter · filter)) hmatch, hmatch, Bool.not_true,
        if_neg Bool.false_ne_true]
      by_cases hskip : skipped < offset
      · rw [if_pos hskip, ih _ _ hroom hskip]
        rw [show offset - skipped = offset - (skipped + 1) + 1 by omega, List.drop_succ_cons]
      · rw [if_neg hskip, show offset - skipped = 0 by omega, List.drop_zero,
          show count - retrieved.length = count - retrieved.length - 1 + 1 by omega,
          List.take_succ_cons]
        simp only [List.length_append, List.length_singleton]
        by_cases hfull : retrieved.length + 1 ≥ count
        · rw [if_pos hfull, show count - retrieved.length - 1 = 0 by omega, List.take_zero]
        · rw [if_neg hfull, ih _ _ (by simp; omega) hskipped, show offset - skipped = 0 by omega,
            List.drop_zero, List.append_assoc, List.length_append, List.length_singleton,
            List.singleton_append, Nat.sub_sub]
    · rw [List.filter_cons_of_neg (p := (matchesFilter · filter)) hmatch,
        if_pos (by simpa using hmatch), ih _ _ hroom hskipped]

/-- `GetLogs` in one expression. -/
theorem getLogs_eq (logger : EventLogger) (count offset : Nat) (filter : LogFilter) :
    logger.getLogs count offset filter =
      ((logger.visited.filter (matchesFilter · filter)).drop offset).take count := by
  rw [getLogs]
  split
  · next hnone =>
    rcases hnone with hnone | hnone
    · rw [visited, hnone]
      simp
    · rw [hnone, List.take_zero]
  · next hsome =>
    rw [getLogsLoop_eq filter count offset _ [] 0 (by simp; omega) (Nat.zero_le _)]
    rfl

/-- `GetLogCount` counts the entries that pass. -/
theorem getLogCount_eq (logger : EventLogger) (filter : LogFilter) :
    logger.getLogCount filter = (logger.visited.filter (matchesFilter · filter)).length := by
  have hfold : ∀ (entries : List LogEntry) (matched : Nat),
      entries.foldl (fun matched entry =>
        if matchesFilter entry filter then matched + 1 else matched) matched =
        matched + (entries.filter (matchesFilter · filter)).length := by
    intro entries
    induction entries with
    | nil => intro matched; rfl
    | cons entry entries ih =>
      intro matched
      rw [List.foldl_cons, ih]
      by_cases hmatch : matchesFilter entry filter = true
      · rw [if_pos hmatch, List.filter_cons_of_pos (p := (matchesFilter · filter)) hmatch,
          List.length_cons]
        omega
      · rw [if_neg hmatch, List.filter_cons_of_neg (p := (matchesFilter · filter)) hmatch]
  rw [getLogCount]
  split
  · next hnone =>
    rw [visited, hnone]
    rfl
  · rw [hfold, Nat.zero_add]

end EventLogger

namespace Recorded

variable {logger : EventLogger} {calls : List LogCall}

/-- The entries that pass are the last records that pass. -/
theorem map_filter (h : Recorded logger calls) (filter : LogFilter) :
    (logger.visited.filter (matchesFilter · filter)).map LogEntry.record =
      recentPassing calls filter := by
  rw [recentPassing, ← h.map_visited, List.filter_map]
  congr 2
  funext entry
  exact matchesFilter_eq entry filter

theorem getLogs (h : Recorded logger calls) (count offset : Nat) (filter : LogFilter) :
    (logger.getLogs count offset filter).map LogEntry.record =
      ((recentPassing calls filter).drop offset).take count := by
  rw [EventLogger.getLogs_eq, List.map_take, List.map_drop, h.map_filter]

theorem getLogCount (h : Recorded logger calls) (filter : LogFilter) :
    logger.getLogCount filter = (recentPassing calls filter).length := by
  rw [EventLogger.getLogCount_eq, ← h.map_filter, List.length_map]

/-- Marks of `Flush` do not show. -/
theorem markFlushed (h : Recorded logger calls) (idx : Nat) :
    Recorded (logger.markFlushed idx) calls := by
  refine ⟨h.head, h.count, h.tickCounter, h.holds.congr fun j => ?_⟩
  rw [EventLogger.buffer_markFlushed]
  split <;> rfl

theorem flushLoop (h : Recorded logger calls) (flushCount n i : Nat) (bins : List LogEntryBinary) :
    Recorded (EventLogger.flushLoop flushCount n i logger bins).1 calls := by
  induction n generalizing i logger bins with
  | zero => exact h
  | succ n ih =>
    simp only [EventLogger.flushLoop]
    split
    · exact h
    · split
      · exact ih h _ _
      · exact ih (h.markFlushed _) _ _

theorem flush {σ : Type*} (h : Recorded logger calls) (fs : LogFileSystem σ)
    (mounted memory : Bool) (disk : σ) :
    Recorded (logger.flush fs mounted memory disk).1 calls := by
  rw [EventLogger.flush]
  split
  · exact h
  · split
    · exact h
    · cases memory with
      | false => exact h
      | true => exact h.flushLoop _ _ _ _

end Recorded

/-- A call of the logger that changes it. -/
inductive LoggerCall
  | log (call : LogCall)
  | flush (mounted memory : Bool)

/-- A sequence of calls, on any file system. -/
def runLogger {σ : Type*} (fs : LogFileSystem σ) :
    EventLogger × σ → List LoggerCall → EventLogger × σ
  | s, [] => s
  | (logger, disk), .log call :: ops => runLogger fs (logger.log call, disk) ops
  | (logger, disk), .flush mounted memory :: ops =>
    runLogger fs (logger.flush fs mounted memory disk) ops

/-- The calls of `Log` in a sequence. -/
def logCalls : List LoggerCall → List LogCall
  | [] => []
  | .log call :: ops => call :: logCalls ops
  | .flush _ _ :: ops => logCalls ops

theorem Recorded.run {σ : Type*} {logger : EventLogger} {calls : List LogCall}
    (h : Recorded logger calls) (fs : LogFileSystem σ) (disk : σ) (ops : List LoggerCall) :
    Recorded (runLogger fs (logger, disk) ops).1 (calls ++ logCalls ops) := by
  induction ops generalizing logger calls disk with
  | nil => simpa [runLogger, logCalls] using h
  | cons op ops ih =>
    cases op with
    | log call =>
      have hnext := ih (h.log call) disk
      rwa [List.append_assoc, List.singleton_append] at hnext
    | flush mounted memory => exact ih (h.flush fs mounted memory disk) _

/-- Pages of one size, read one after the other, are the whole list. -/
theorem flatMap_pages {α : Type*} (l : List α) (size pages : Nat) (h : l.length ≤ pages * size) :
    ((List.range pages).flatMap fun p => (l.drop (p * size)).take size) = l := by
  have hfirst : ∀ n, ((List.range n).flatMap fun p => (l.drop (p * size)).take size) =
      l.take (n * size) := by
    intro n
    induction n with
    | zero => simp
    | succ n ih =>
      rw [List.range_succ, List.flatMap_append, ih, List.flatMap_singleton, Nat.succ_mul,
        List.take_add]
  rw [hfirst, List.take_of_length_le h]

/-- Whatever was logged and flushed before, `GetLogs` gives the records of the page asked for
among the last 256 that pass the filters, `GetLogCount` their number, and the pages of any
size together are all of them. -/
theorem queries_refine_log {σ : Type*} (fs : LogFileSystem σ) (memory : Nat → Buffer) (disk : σ)
    (ops : List LoggerCall) (filter : LogFilter) :
    let logger := (runLogger fs (.create memory, disk) ops).1
    let F := recentPassing (logCalls ops) filter
    (∀ count offset, (logger.getLogs count offset filter).map LogEntry.record =
        (F.drop offset).take count) ∧
      logger.getLogCount filter = F.length ∧
      ∀ size, 0 < size →
        ((List.range ((logger.getLogCount filter + size - 1) / size)).flatMap fun page =>
          (logger.getLogs size (page * size) filter).map LogEntry.record) = F := by
  intro logger F
  have hrecorded : Recorded logger (logCalls ops) := (Recorded.create memory).run fs disk ops
  refine ⟨fun count offset => hrecorded.getLogs count offset filter,
    hrecorded.getLogCount filter, fun size hsize => ?_⟩
  simp only [hrecorded.getLogs, hrecorded.getLogCount]
  apply flatMap_pages
  have hdiv := Nat.div_add_mod (F.length + size - 1) size
  have hmod := Nat.mod_lt (F.length + size - 1) hsize
  rw [Nat.mul_comm] at hdiv
  show F.length ≤ (F.length + size - 1) / size * size
  omega

end Sylphia
