import Sylphia.Core.Bytes
import Sylphia.Core.RecentRing

/-!
# The event logger

`EventLogger` of `logger.cpp`: a ring of the last 256 entries, which `GetLogs` and
`GetLogCount` read through filters and `Flush` appends to a file. What is read from it is
compared with the whole list of the calls of `Log`.
-/

namespace Sylphia

open Bytes

/-- The characters of a string, up to its NUL. -/
def chars (s : List Byte) : List Byte := s.takeWhile (· != 0)

/-- `str_len`. -/
def strLen : List Byte → Nat
  | [] => 0
  | c :: s => if c = 0 then 0 else strLen s + 1

/-- The loop of `str_copy`, with room for so many more characters behind `dst[i]`. -/
def strCopyLoop : Nat → Buffer → List Byte → Nat → Buffer
  | room + 1, dst, c :: src, i =>
    if c = 0 then Function.update dst i 0
    else strCopyLoop room (Function.update dst i c) src (i + 1)
  | _, dst, _, i => Function.update dst i 0

/-- `str_copy`. -/
def strCopy (dst : Buffer) (src : List Byte) (maxLen : Nat) : Buffer :=
  strCopyLoop (maxLen - 1) dst src 0

/-- `str_contains`, of strings that are not `nullptr`. -/
def strContains (haystack needle : List Byte) : Bool :=
  if strLen needle = 0 then true
  else
    let hLen := strLen haystack
    let nLen := strLen needle
    if nLen > hLen then false
    else (List.range (hLen - nLen + 1)).any fun i =>
      (List.range nLen).all fun j => haystack.getD (i + j) 0 == needle.getD j 0

inductive LogLevel
  | info
  | warning
  | error
  deriving DecidableEq, Repr

inductive LogType
  | kernel
  | fs
  | driver
  | memory
  | application
  | network
  deriving DecidableEq, Repr

/-- `static_cast<uint8_t>`. -/
def LogLevel.code : LogLevel → Byte
  | .info => 0
  | .warning => 1
  | .error => 2

/-- `static_cast<uint8_t>`. -/
def LogType.code : LogType → Byte
  | .kernel => 0
  | .fs => 1
  | .driver => 2
  | .memory => 3
  | .application => 4
  | .network => 5

/-- `LogEntry`; the message is an array of 128 characters. -/
structure LogEntry where
  timestamp : BitVec 64
  level : LogLevel
  type : LogType
  message : Buffer
  isFlushed : Bool

/-- The characters of the array `message`. -/
def LogEntry.text (entry : LogEntry) : List Byte := slice entry.message 0 128

/-- The filters of a query; each of them may be `nullptr`. -/
structure LogFilter where
  level : Option LogLevel
  type : Option LogType
  keyword : Option (List Byte)

/-- `MatchesFilter`. -/
def matchesFilter (entry : LogEntry) (filter : LogFilter) : Bool :=
  if filter.level.any (entry.level != ·) then false
  else if filter.type.any (entry.type != ·) then false
  else if filter.keyword.any (!strContains entry.text ·) then false
  else true

/-- `kLogBufferSize`. -/
def logBufferSize : Nat := 256

/-- `EventLogger`. -/
structure EventLogger where
  buffer : Nat → LogEntry
  head : Nat
  count : Nat
  tickCounter : BitVec 64

/-- The arguments of a call of `Log`; the message is what is at the pointer. -/
structure LogCall where
  level : LogLevel
  type : LogType
  message : List Byte

namespace EventLogger

/-- The constructor, in memory that holds anything. -/
def create (memory : Nat → Buffer) : EventLogger where
  buffer i :=
    { timestamp := 0
      level := .info
      type := .kernel
      message := Function.update (memory i) 0 0
      isFlushed := true }
  head := 0
  count := 0
  tickCounter := 0

/-- `Log`. -/
def log (logger : EventLogger) (call : LogCall) : EventLogger where
  buffer := Function.update logger.buffer logger.head
    { timestamp := logger.tickCounter
      level := call.level
      type := call.type
      message := strCopy (logger.buffer logger.head).message call.message 128
      isFlushed := false }
  head := (logger.head + 1) % logBufferSize
  count := if logger.count < logBufferSize then logger.count + 1 else logger.count
  tickCounter := logger.tickCounter + 1

theorem isFlushed_log (logger : EventLogger) (call : LogCall) :
    ((logger.log call).buffer logger.head).isFlushed = false := by
  simp [log]

theorem buffer_log_of_ne (logger : EventLogger) (call : LogCall) {j : Nat} (h : j ≠ logger.head) :
    (logger.log call).buffer j = logger.buffer j :=
  Function.update_of_ne h _ _

/-- `start_idx`. -/
def startIdx (logger : EventLogger) : Nat :=
  if logger.count < logBufferSize then 0 else logger.head

/-- The entries in the order in which the loops of the queries visit them. -/
def visited (logger : EventLogger) : List LogEntry :=
  (List.range logger.count).map fun i => logger.buffer ((logger.startIdx + i) % logBufferSize)

/-- The loop of `GetLogs`, with the entries retrieved so far and the number of those that were
skipped. -/
def getLogsLoop (filter : LogFilter) (count offset : Nat) :
    List LogEntry → List LogEntry → Nat → List LogEntry
  | [], retrieved, _ => retrieved
  | entry :: rest, retrieved, skipped =>
    if !matchesFilter entry filter then getLogsLoop filter count offset rest retrieved skipped
    else if skipped < offset then getLogsLoop filter count offset rest retrieved (skipped + 1)
    else
      let retrieved := retrieved ++ [entry]
      if retrieved.length ≥ count then retrieved
      else getLogsLoop filter count offset rest retrieved skipped

/-- `GetLogs`: the entries written to `out_entries`, as many as are returned. -/
def getLogs (logger : EventLogger) (count offset : Nat) (filter : LogFilter) : List LogEntry :=
  if logger.count = 0 ∨ count = 0 then []
  else getLogsLoop filter count offset logger.visited [] 0

/-- `GetLogCount`. -/
def getLogCount (logger : EventLogger) (filter : LogFilter) : Nat :=
  if logger.count = 0 then 0
  else logger.visited.foldl
    (fun matched entry => if matchesFilter entry filter then matched + 1 else matched) 0

end EventLogger

/-- `LogFileHeader`; its 52 reserved bytes are 0. -/
structure LogFileHeader where
  magic : Nat
  version : Nat
  entrySize : Nat
  entryCount : Nat

/-- The 64 bytes of a header. -/
def LogFileHeader.bytes (header : LogFileHeader) : List Byte :=
  toLE 4 header.magic ++ toLE 2 header.version ++ toLE 2 header.entrySize ++
    toLE 4 header.entryCount ++ List.replicate 52 0

/-- `LogEntryBinary`; its reserved bytes are 0. -/
structure LogEntryBinary where
  timestamp : BitVec 64
  level : Byte
  type : Byte
  messageLen : BitVec 16
  message : List Byte

/-- The 512 bytes of a record: 240 are reserved, and 4 are added by the alignment. -/
def LogEntryBinary.bytes (bin : LogEntryBinary) : List Byte :=
  toLE 8 bin.timestamp.toNat ++ [bin.level, bin.type] ++ toLE 2 bin.messageLen.toNat ++
    bin.message ++ List.replicate 244 0

/-- The record of an entry; only half of its message array is used. -/
def LogEntry.toBinary (entry : LogEntry) : LogEntryBinary where
  timestamp := entry.timestamp
  level := entry.level.code
  type := entry.type.code
  messageLen := BitVec.ofNat 16 (strLen entry.text)
  message := entry.text ++ List.replicate 128 0

/-- What `Flush` uses of the file system, for the one file `SYSTEM  LOG`. -/
structure LogFileSystem (σ : Type*) where
  getFileSize : σ → Nat
  writeFile : σ → List Byte → σ
  appendFile : σ → List Byte → σ

/-- The header that a new file gets. -/
def newHeader : LogFileHeader where
  magic := 0x474F4C53
  version := 1
  entrySize := 512
  entryCount := 0

namespace EventLogger

/-- `idx` of the loops of `Flush`. -/
def flushIdx (logger : EventLogger) (i : Nat) : Nat :=
  if logger.count < logBufferSize then i else (logger.head + i) % logBufferSize

/-- `entries_to_flush`. -/
def entriesToFlush (logger : EventLogger) : Nat :=
  (List.range logger.count).countP fun i => !(logger.buffer (logger.flushIdx i)).isFlushed

/-- `flush_count`. -/
def flushCount (logger : EventLogger) : Nat :=
  if logger.entriesToFlush > 8 then 8 else logger.entriesToFlush

/-- The entry in a slot is marked as flushed. -/
def markFlushed (logger : EventLogger) (idx : Nat) : EventLogger :=
  { logger with
    buffer := Function.update logger.buffer idx { logger.buffer idx with isFlushed := true } }

theorem buffer_markFlushed (logger : EventLogger) (idx j : Nat) :
    (logger.markFlushed idx).buffer j =
      if j = idx then { logger.buffer j with isFlushed := true } else logger.buffer j := by
  by_cases hj : j = idx
  · rw [if_pos hj, hj]
    exact Function.update_self idx _ _
  · rw [if_neg hj]
    exact Function.update_of_ne hj _ _

/-- The loop of `Flush` over the entries from the `i`-th on, with the records made so far. -/
def flushLoop (flushCount : Nat) :
    Nat → Nat → EventLogger → List LogEntryBinary → EventLogger × List LogEntryBinary
  | 0, _, logger, bins => (logger, bins)
  | n + 1, i, logger, bins =>
    if bins.length ≥ flushCount then (logger, bins)
    else
      let idx := logger.flushIdx i
      let entry := logger.buffer idx
      if entry.isFlushed then flushLoop flushCount n (i + 1) logger bins
      else flushLoop flushCount n (i + 1) (logger.markFlushed idx) (bins ++ [entry.toBinary])

/-- `Flush`; `mounted` tells whether `g_system_fs` is set, and `memory` whether `Allocate`
gives a buffer. -/
def flush {σ : Type*} (fs : LogFileSystem σ) (mounted memory : Bool) (logger : EventLogger)
    (disk : σ) : EventLogger × σ :=
  if !mounted then (logger, disk)
  else if logger.entriesToFlush = 0 then (logger, disk)
  else
    let disk := if fs.getFileSize disk = 0 then fs.writeFile disk newHeader.bytes else disk
    if !memory then (logger, disk)
    else
      let (logger, bins) := flushLoop logger.flushCount logger.count 0 logger []
      (logger, fs.appendFile disk (bins.flatMap LogEntryBinary.bytes))

end EventLogger

end Sylphia
