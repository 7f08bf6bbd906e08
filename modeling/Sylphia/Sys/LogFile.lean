import Sylphia.Sys.LogQuery

/-!
# The log file

`Flush` appends the oldest entries that it has not written yet, at most eight at a time,
while `Log` goes on overwriting the ring. The numbers of the entries in the file increase, and
none is left out unless it was overwritten first. The header of the file is written only once,
before the first of them.
-/

namespace Sylphia

open Bytes

/-- The level with this code. -/
def LogLevel.ofCode (c : Byte) : Option LogLevel :=
  [LogLevel.info, .warning, .error].find? (·.code == c)

/-- The type with this code. -/
def LogType.ofCode (c : Byte) : Option LogType :=
  [LogType.kernel, .fs, .driver, .memory, .application, .network].find? (·.code == c)

namespace LogEntryBinary

/-- What a record of the file stands for: its message has `message_len` characters. -/
def record? (bin : LogEntryBinary) : Option LogRecord := do
  let level ← LogLevel.ofCode bin.level
  let type ← LogType.ofCode bin.type
  return ⟨bin.timestamp, level, type, bin.message.take bin.messageLen.toNat⟩

/-- The fields of the 512 bytes of a record. -/
def parse (bytes : List Byte) : LogEntryBinary where
  timestamp := BitVec.ofNat 64 (ofLE (bytes.take 8))
  level := bytes.getD 8 0
  type := bytes.getD 9 0
  messageLen := BitVec.ofNat 16 (ofLE ((bytes.drop 10).take 2))
  message := (bytes.drop 12).take 256

theorem length_bytes {bin : LogEntryBinary} (h : bin.message.length = 256) :
    bin.bytes.length = 512 := by
  rw [bytes, List.length_append, List.length_append, List.length_append, List.length_append,
    length_toLE, length_toLE, h, List.length_replicate]
  rfl

/-- The fields are read back. -/
theorem parse_bytes {bin : LogEntryBinary} (h : bin.message.length = 256) :
    parse bin.bytes = bin := by
  obtain ⟨timestamp, level, type, messageLen, message⟩ := bin
  generalize hbytes : bytes ⟨timestamp, level, type, messageLen, message⟩ = file
  have hlevels : file = toLE 8 timestamp.toNat ++ (level :: type ::
      (toLE 2 messageLen.toNat ++ message ++ List.replicate 244 0)) := by
    rw [← hbytes, bytes]
    simp only [List.append_assoc, List.cons_append, List.nil_append]
  have hlen : file = (toLE 8 timestamp.toNat ++ [level, type]) ++
      (toLE 2 messageLen.toNat ++ (message ++ List.replicate 244 0)) := by
    rw [← hbytes, bytes, List.append_assoc, List.append_assoc]
  have hmessage : file = (toLE 8 timestamp.toNat ++ [level, type] ++ toLE 2 messageLen.toNat) ++
      (message ++ List.replicate 244 0) := by
    rw [← hbytes, bytes, List.append_assoc]
  have h0 : ofLE (file.take 8) = timestamp.toNat := by
    rw [hlevels, List.take_left' (length_toLE 8 _), ofLE_toLE]
    exact Nat.mod_eq_of_lt timestamp.isLt
  have h8 : file.getD 8 0 = level := by
    rw [hlevels, List.getD_eq_getElem?_getD, List.getElem?_append_right (by simp), length_toLE]
    rfl
  have h9 : file.getD 9 0 = type := by
    rw [hlevels, List.getD_eq_getElem?_getD, List.getElem?_append_right (by simp), length_toLE]
    rfl
  have h10 : ofLE ((file.drop 10).take 2) = messageLen.toNat := by
    rw [hlen, List.drop_left' (by simp), List.take_left' (length_toLE 2 _), ofLE_toLE]
    exact Nat.mod_eq_of_lt messageLen.isLt
  have h12 : (file.drop 12).take 256 = message := by
    rw [hmessage, List.drop_left' (by simp), List.take_left' h]
  rw [parse, h0, h8, h9, h10, h12, BitVec.ofNat_toNat, BitVec.ofNat_toNat, BitVec.setWidth_eq,
    BitVec.setWidth_eq]

end LogEntryBinary

theorem LogLevel.ofCode_code (level : LogLevel) : LogLevel.ofCode level.code = some level := by
  cases level <;> rfl

theorem LogType.ofCode_code (type : LogType) : LogType.ofCode type.code = some type := by
  cases type <;> rfl

theorem LogEntry.length_message_toBinary (entry : LogEntry) :
    entry.toBinary.message.length = 256 := by
  simp [LogEntry.toBinary, LogEntry.text]

/-- The record of an entry stands for it. -/
theorem LogEntry.record?_toBinary (entry : LogEntry) :
    entry.toBinary.record? = some entry.record := by
  have hlen : strLen entry.text ≤ 128 := by
    rw [strLen_eq, chars]
    exact (List.takeWhile_prefix _).length_le.trans (by simp [LogEntry.text])
  have htext : (entry.text ++ List.replicate 128 0).take
      (BitVec.ofNat 16 (strLen entry.text)).toNat = chars entry.text := by
    rw [BitVec.toNat_ofNat, Nat.mod_eq_of_lt (by omega), strLen_eq]
    have hfirst : chars entry.text <+: entry.text ++ List.replicate 128 0 :=
      (List.takeWhile_prefix _).trans (List.prefix_append _ _)
    exact (List.prefix_iff_eq_take.mp hfirst).symm
  simp only [LogEntryBinary.record?, LogEntry.toBinary, LogLevel.ofCode_code, LogType.ofCode_code,
    htext]
  rfl

/-- The number of the oldest call whose entry is in the ring. -/
def oldestCall (calls : List LogCall) : Nat := RecentRing.oldest logBufferSize calls.length

theorem oldestCall_eq (calls : List LogCall) :
    oldestCall calls = calls.length - min calls.length 256 :=
  rfl

/-- The slots of two calls whose entries are both in the ring. -/
theorem slot_ne {calls : List LogCall} {k k' : Nat} (hk : oldestCall calls ≤ k) (hlt : k < k')
    (hk' : k' < calls.length) : k % logBufferSize ≠ k' % logBufferSize := by
  rw [oldestCall_eq] at hk
  exact RecentRing.mod_ne_of_lt hlt (by rw [logBufferSize]; omega)

namespace Recorded

variable {logger : EventLogger} {calls : List LogCall}

theorem oldestCall_add_count (h : Recorded logger calls) :
    oldestCall calls + logger.count = calls.length := by
  rw [h.count, oldestCall_eq, logBufferSize]
  omega

/-- The `i`-th slot that `Flush` visits is that of the `i`-th call from the oldest on. -/
theorem flushIdx_eq (h : Recorded logger calls) {i : Nat} (hi : i < logger.count) :
    logger.flushIdx i = (oldestCall calls + i) % logBufferSize := by
  rw [oldestCall, ← RecentRing.cell_eq, EventLogger.flushIdx, h.count, h.head]
  rw [h.count] at hi
  split
  · rw [Nat.zero_add, Nat.mod_eq_of_lt (by omega)]
  · rfl

/-- The entry of a call that is still in the ring. -/
theorem record_eq (h : Recorded logger calls) {k : Nat} (hring : oldestCall calls ≤ k)
    (hk : k < calls.length) :
    some (logger.buffer (k % logBufferSize)).record = (records calls)[k]? := by
  have hlen : k < (records calls).length := by rwa [length_records]
  rw [oldestCall_eq] at hring
  rw [h.holds k hlen (by rw [length_records, logBufferSize]; omega), List.getElem?_eq_getElem hlen]

end Recorded

/-- Between the two loggers, the entries of the calls from `first` to `last` were marked as
flushed, and `new` are their records. -/
structure Flushed (calls : List LogCall) (logger logger' : EventLogger)
    (new : List LogEntryBinary) (first last : Nat) : Prop where
  new_eq : new = (List.range' first (last - first)).map fun k =>
    (logger.buffer (k % logBufferSize)).toBinary
  marks : ∀ k, oldestCall calls ≤ k → k < calls.length →
    (logger'.buffer (k % logBufferSize)).isFlushed =
      ((logger.buffer (k % logBufferSize)).isFlushed || decide (first ≤ k ∧ k < last))

namespace Flushed

variable {calls : List LogCall} {logger logger' : EventLogger} {new : List LogEntryBinary}
  {first last : Nat}

theorem nil (h : last ≤ first) : Flushed calls logger logger [] first last := by
  refine ⟨by rw [Nat.sub_eq_zero_of_le h]; rfl, fun k _ _ => ?_⟩
  rw [decide_eq_false (by omega), Bool.or_false]

/-- One entry, and those behind it. -/
theorem cons (hring : oldestCall calls ≤ first) (hlt : first < last) (hlast : last ≤ calls.length)
    (h : Flushed calls (logger.markFlushed (first % logBufferSize)) logger' new (first + 1) last) :
    Flushed calls logger logger' ((logger.buffer (first % logBufferSize)).toBinary :: new)
      first last := by
  constructor
  · rw [show last - first = last - (first + 1) + 1 by omega, List.range'_succ, List.map_cons,
      h.new_eq]
    congr 1
    apply List.map_congr_left
    intro k _
    rw [EventLogger.buffer_markFlushed]
    split <;> rfl
  · intro k hk hkl
    rw [h.marks k hk hkl, EventLogger.buffer_markFlushed]
    rcases Nat.lt_trichotomy k first with hbefore | rfl | hbehind
    · rw [if_neg (slot_ne hk hbefore (by omega)), decide_eq_false (by omega),
        decide_eq_false (by omega)]
    · rw [if_pos rfl, decide_eq_true (show k ≤ k ∧ k < last by omega), Bool.or_true]
      rfl
    · rw [if_neg (slot_ne hring hbehind hkl).symm]
      congr 2
      rw [eq_iff_iff]
      omega

end Flushed

/-- From the `i`-th entry on, the loop of `Flush` makes records of the entries that are not
marked, in their order and as many as there is room for, and marks them. -/
theorem flushLoop_spec {calls : List LogCall} {m first last : Nat} (hm : m ≤ calls.length)
    (flushCount : Nat) {logger : EventLogger} (h : Recorded logger calls) (n i : Nat)
    (bins : List LogEntryBinary) (hi : i + n = logger.count)
    (hmarked : ∀ k, oldestCall calls + i ≤ k → k < calls.length →
      (logger.buffer (k % logBufferSize)).isFlushed = decide (k < m))
    (hfirst : first = max m (oldestCall calls + i))
    (hlast : last = min calls.length (first + (flushCount - bins.length))) :
    ∃ new, (EventLogger.flushLoop flushCount n i logger bins).2 = bins ++ new ∧
      Flushed calls logger (EventLogger.flushLoop flushCount n i logger bins).1 new first last := by
  have hall := h.oldestCall_add_count
  induction n generalizing i logger bins first with
  | zero => exact ⟨[], by simp [EventLogger.flushLoop], .nil (by omega)⟩
  | succ n ih =>
    simp only [EventLogger.flushLoop]
    by_cases hfull : bins.length ≥ flushCount
    · rw [if_pos hfull]
      exact ⟨[], by simp, .nil (by omega)⟩
    have hlt : oldestCall calls + i < calls.length := by omega
    rw [if_neg hfull, h.flushIdx_eq (by omega), hmarked _ (Nat.le_refl _) hlt]
    by_cases hold : oldestCall calls + i < m
    · rw [decide_eq_true hold, if_pos rfl]
      exact ih h (i + 1) bins (by omega) (fun k hk hkl => hmarked k (by omega) hkl) (by omega)
        hlast hall
    · rw [decide_eq_false hold, if_neg Bool.false_ne_true]
      have hnext : first = oldestCall calls + i := by omega
      rw [← hnext]
      have hbehind : ∀ k, oldestCall calls + (i + 1) ≤ k → k < calls.length →
          ((logger.markFlushed (first % logBufferSize)).buffer (k % logBufferSize)).isFlushed =
            decide (k < m) := by
        intro k hk hkl
        rw [EventLogger.buffer_markFlushed, if_neg (slot_ne (by omega) (by omega) hkl).symm]
        exact hmarked k (by omega) hkl
      have hfirst' : first + 1 = max m (oldestCall calls + (i + 1)) := by omega
      obtain ⟨new, hbins, hflushed⟩ := ih (h.markFlushed _) (i + 1)
        (bins ++ [(logger.buffer (first % logBufferSize)).toBinary])
        (show i + 1 + n = logger.count by omega) hbehind hfirst'
        (by rw [List.length_append, List.length_singleton]; omega) hall
      rw [List.append_assoc, List.singleton_append] at hbins
      exact ⟨_, hbins, .cons (by omega) (by omega) (by omega) hflushed⟩

theorem countP_le (a n : Nat) : (List.range n).countP (fun i => decide (a ≤ i)) = n - a := by
  induction n with
  | zero => rw [Nat.zero_sub]; rfl
  | succ n ih =>
    rw [List.range_succ, List.countP_append, ih, List.countP_singleton]
    split
    · next hle =>
      rw [decide_eq_true_iff] at hle
      omega
    · next hgt =>
      rw [decide_eq_true_iff] at hgt
      omega

/-- The entries of the calls before the `m`-th are marked as flushed, the others are not. -/
def MarkedBelow (logger : EventLogger) (calls : List LogCall) (m : Nat) : Prop :=
  ∀ k, oldestCall calls ≤ k → k < calls.length →
    (logger.buffer (k % logBufferSize)).isFlushed = decide (k < m)

theorem Recorded.entriesToFlush_eq {logger : EventLogger} {calls : List LogCall} {m : Nat}
    (h : Recorded logger calls) (hmarked : MarkedBelow logger calls m) :
    logger.entriesToFlush = calls.length - max m (oldestCall calls) := by
  have hall := h.oldestCall_add_count
  have hcount : logger.entriesToFlush = (List.range logger.count).countP
      fun i => decide (m - oldestCall calls ≤ i) := by
    apply List.countP_congr
    intro i hi
    rw [List.mem_range] at hi
    rw [h.flushIdx_eq hi, hmarked _ (Nat.le_add_right _ _) (by omega)]
    rw [Bool.not_eq_true', decide_eq_false_iff_not, decide_eq_true_iff]
    omega
  rw [hcount, countP_le]
  omega

/-! ## Runs -/

/-- The file system as far as the log file needs it: `contents` is the file, if there is one. -/
structure Appending {σ : Type*} (fs : LogFileSystem σ) (contents : σ → Option (List Byte)) :
    Prop where
  size : ∀ s, fs.getFileSize s = ((contents s).getD []).length
  create : ∀ s bytes, contents s = none → contents (fs.writeFile s bytes) = some bytes
  append : ∀ s old bytes, contents s = some old →
    contents (fs.appendFile s bytes) = some (old ++ bytes)

/-- The records that a call of `Flush` appends to the file. -/
def EventLogger.flushedBins (logger : EventLogger) (mounted memory : Bool) :
    List LogEntryBinary :=
  if !mounted || logger.entriesToFlush = 0 || !memory then []
  else (EventLogger.flushLoop logger.flushCount logger.count 0 logger []).2

/-- The bytes of a file with these records. -/
def fileBytes (bins : List LogEntryBinary) : List Byte :=
  newHeader.bytes ++ bins.flatMap LogEntryBinary.bytes

/-- The file has the records `bins`, which are those of the calls `ks`; the entries of all
calls before the `m`-th are there or were overwritten. -/
structure LogFile (logger : EventLogger) (calls : List LogCall) (file : Option (List Byte))
    (bins : List LogEntryBinary) (ks : List Nat) (m : Nat) : Prop where
  recorded : Recorded logger calls
  le_calls : m ≤ calls.length
  marked : MarkedBelow logger calls m
  file_eq : file = none ∧ bins = [] ∨ file = some (fileBytes bins)
  decoded : bins.map LogEntryBinary.record? = ks.map ((records calls)[·]?)
  sized : ∀ bin ∈ bins, bin.message.length = 256
  increasing : ks.Pairwise (· < ·)
  below : ∀ k ∈ ks, k < m
  missing : ∀ k < m, k ∉ ks → k + 256 < calls.length

namespace LogFile

variable {logger logger' : EventLogger} {calls : List LogCall} {file : Option (List Byte)}
  {bins new : List LogEntryBinary} {ks : List Nat} {m first last : Nat}

theorem create (memory : Nat → Buffer) : LogFile (.create memory) [] none [] [] 0 where
  recorded := .create memory
  le_calls := Nat.le_refl 0
  marked := nofun
  file_eq := Or.inl ⟨rfl, rfl⟩
  decoded := rfl
  sized := nofun
  increasing := .nil
  below := nofun
  missing := nofun

theorem log (h : LogFile logger calls file bins ks m) (call : LogCall) :
    LogFile (logger.log call) (calls ++ [call]) file bins ks m := by
  have hlen : (calls ++ [call]).length = calls.length + 1 := by simp
  refine ⟨h.recorded.log call, by have := h.le_calls; omega, ?_, h.file_eq, ?_, h.sized,
    h.increasing, h.below, fun k hk hnot => ?_⟩
  · intro k hk hkl
    rw [oldestCall_eq, hlen] at hk
    rw [hlen] at hkl
    by_cases hnew : k = calls.length
    · rw [hnew, ← h.recorded.head, decide_eq_false (by have := h.le_calls; omega)]
      exact logger.isFlushed_log call
    · have hslot : k % logBufferSize ≠ logger.head := by
        rw [h.recorded.head]
        exact RecentRing.mod_ne_of_lt (by omega) (by rw [logBufferSize]; omega)
      rw [logger.buffer_log_of_ne call hslot]
      exact h.marked k (by rw [oldestCall_eq]; omega) (by omega)
  · rw [h.decoded]
    apply List.map_congr_left
    intro k hk
    have hlt := h.below k hk
    have hle := h.le_calls
    rw [records_append, List.getElem?_append_left (by rw [length_records]; omega)]
  · have := h.missing k hk hnot
    omega

/-- After a flush the file has the new records as well. -/
theorem flushed (h : LogFile logger calls file bins ks m)
    (hfirst : first = max m (oldestCall calls)) (hle : first ≤ last) (hlast : last ≤ calls.length)
    (hrecorded : Recorded logger' calls) (hflushed : Flushed calls logger logger' new first last) :
    LogFile logger' calls (some (fileBytes (bins ++ new))) (bins ++ new)
      (ks ++ List.range' first (last - first)) last := by
  have hmem : ∀ k, k ∈ List.range' first (last - first) ↔ first ≤ k ∧ k < last := by
    intro k
    rw [List.mem_range'_1]
    omega
  refine ⟨hrecorded, hlast, fun k hk hkl => ?_, Or.inr rfl, ?_, fun bin hbin => ?_, ?_,
    fun k hk => ?_, fun k hk hnot => ?_⟩
  · rw [hflushed.marks k hk hkl, h.marked k hk hkl, ← Bool.decide_or]
    congr 1
    rw [eq_iff_iff]
    omega
  · rw [List.map_append, List.map_append, h.decoded, hflushed.new_eq, List.map_map]
    congr 1
    apply List.map_congr_left
    intro k hk
    rw [hmem] at hk
    rw [Function.comp, LogEntry.record?_toBinary]
    exact h.recorded.record_eq (by omega) (by omega)
  · rcases List.mem_append.mp hbin with hold | hnew
    · exact h.sized bin hold
    · rw [hflushed.new_eq, List.mem_map] at hnew
      obtain ⟨k, _, rfl⟩ := hnew
      exact LogEntry.length_message_toBinary _
  · rw [List.pairwise_append]
    refine ⟨h.increasing, List.pairwise_lt_range', fun k hk k' hk' => ?_⟩
    have hbelow := h.below k hk
    rw [hmem] at hk'
    omega
  · rcases List.mem_append.mp hk with hold | hnew
    · have hbelow := h.below k hold
      omega
    · exact ((hmem k).mp hnew).2
  · rw [List.mem_append, hmem] at hnot
    by_cases hold : k < m
    · exact h.missing k hold fun hin => hnot (Or.inl hin)
    · -- The entries before the first one that was flushed are no longer in the ring.
      have hgone : k < oldestCall calls := by omega
      rw [oldestCall_eq] at hgone
      omega

/-- `Flush` gives a new file its header. -/
theorem contents_header {σ : Type*} {fs : LogFileSystem σ} {contents : σ → Option (List Byte)}
    (hfs : Appending fs contents) {disk : σ} (h : LogFile logger calls (contents disk) bins ks m) :
    contents (if fs.getFileSize disk = 0 then fs.writeFile disk newHeader.bytes else disk) =
      some (fileBytes bins) := by
  rcases h.file_eq with ⟨hnone, hbins⟩ | hsome
  · have hsize : fs.getFileSize disk = 0 := by
      rw [hfs.size, hnone]
      rfl
    rw [if_pos hsize, hfs.create disk _ hnone, hbins]
    rfl
  · have hsize : fs.getFileSize disk ≠ 0 := by
      rw [hfs.size, hsome, Option.getD_some, fileBytes, List.length_append]
      exact Nat.ne_of_gt (Nat.add_pos_left (by decide) _)
    rw [if_neg hsize, hsome]

/-- A call of `Flush`. -/
theorem flush {σ : Type*} {fs : LogFileSystem σ} {contents : σ → Option (List Byte)}
    (hfs : Appending fs contents) {disk : σ} (h : LogFile logger calls (contents disk) bins ks m)
    (mounted memory : Bool) :
    ∃ ks' m', LogFile (logger.flush fs mounted memory disk).1 calls
      (contents (logger.flush fs mounted memory disk).2)
      (bins ++ logger.flushedBins mounted memory) ks' m' := by
  have hheader := h.contents_header hfs
  rw [EventLogger.flush, EventLogger.flushedBins]
  generalize (if fs.getFileSize disk = 0 then fs.writeFile disk newHeader.bytes else disk) = disk'
    at hheader ⊢
  by_cases hidle : logger.entriesToFlush = 0
  · exact ⟨ks, m, by simpa [hidle] using h⟩
  cases mounted with
  | false => exact ⟨ks, m, by simpa using h⟩
  | true =>
    cases memory with
    | false =>
      refine ⟨ks, m, ?_⟩
      simp only [Bool.not_true, Bool.not_false, Bool.or_true, if_neg hidle, if_true,
        Bool.false_eq_true, if_false, List.append_nil, hheader]
      exact { h with file_eq := Or.inr rfl }
    | true =>
      have hall := h.recorded.oldestCall_add_count
      have hle := h.le_calls
      obtain ⟨first, hfirst⟩ : ∃ first, first = max m (oldestCall calls + 0) := ⟨_, rfl⟩
      obtain ⟨last, hlast⟩ : ∃ last, last = min calls.length (first + (logger.flushCount - 0)) :=
        ⟨_, rfl⟩
      obtain ⟨new, hnew, hflushed⟩ := flushLoop_spec hle logger.flushCount h.recorded
        logger.count 0 [] (Nat.zero_add _) h.marked hfirst hlast
      have hrecorded := h.recorded.flushLoop logger.flushCount logger.count 0 []
      have hfile := hfs.append disk' _ (new.flatMap LogEntryBinary.bytes) hheader
      have hbytes : fileBytes bins ++ new.flatMap LogEntryBinary.bytes =
          fileBytes (bins ++ new) := by
        rw [fileBytes, fileBytes, List.flatMap_append, List.append_assoc]
      refine ⟨ks ++ List.range' first (last - first), last, ?_⟩
      simp only [Bool.not_true, Bool.false_or, Bool.or_false, decide_eq_true_iff, if_neg hidle,
        Bool.false_eq_true, if_false, hnew, List.nil_append, hfile, hbytes]
      exact h.flushed hfirst (by omega) (by omega) hrecorded hflushed

end LogFile

/-- The records that the calls of `Flush` in a sequence append. -/
def flushedDuring {σ : Type*} (fs : LogFileSystem σ) :
    EventLogger × σ → List LoggerCall → List LogEntryBinary
  | _, [] => []
  | (logger, disk), .log call :: ops => flushedDuring fs (logger.log call, disk) ops
  | (logger, disk), .flush mounted memory :: ops =>
    logger.flushedBins mounted memory ++
      flushedDuring fs (logger.flush fs mounted memory disk) ops

section Run

variable {σ : Type*} {fs : LogFileSystem σ} {contents : σ → Option (List Byte)} {disk : σ}
  {logger : EventLogger} {calls : List LogCall} {bins : List LogEntryBinary} {ks : List Nat}
  {m : Nat}

theorem LogFile.run (hfs : Appending fs contents)
    (h : LogFile logger calls (contents disk) bins ks m) (ops : List LoggerCall) :
    ∃ ks' m', LogFile (runLogger fs (logger, disk) ops).1 (calls ++ logCalls ops)
      (contents (runLogger fs (logger, disk) ops).2)
      (bins ++ flushedDuring fs (logger, disk) ops) ks' m' := by
  induction ops generalizing logger calls disk bins ks m with
  | nil =>
    rw [runLogger, logCalls, flushedDuring, List.append_nil, List.append_nil]
    exact ⟨ks, m, h⟩
  | cons op ops ih =>
    cases op with
    | log call =>
      have hnext := ih (h.log call)
      rwa [List.append_assoc, List.singleton_append] at hnext
    | flush mounted memory =>
      obtain ⟨ks', m', hflush⟩ := h.flush hfs mounted memory
      have hnext := ih hflush
      rwa [List.append_assoc] at hnext

/-- From an empty log and no file on. -/
theorem LogFile.of_run (hfs : Appending fs contents) (memory : Nat → Buffer)
    (hnone : contents disk = none) (ops : List LoggerCall) :
    ∃ ks m, LogFile (runLogger fs (.create memory, disk) ops).1 (logCalls ops)
      (contents (runLogger fs (.create memory, disk) ops).2)
      (flushedDuring fs (.create memory, disk) ops) ks m := by
  have hstart : LogFile (.create memory) [] (contents disk) [] [] 0 := by
    rw [hnone]
    exact .create memory
  exact hstart.run hfs ops

end Run

/-- A file system with this one file. -/
def oneFile : LogFileSystem (Option (List Byte)) where
  getFileSize file := (file.getD []).length
  writeFile _ bytes := some bytes
  appendFile file bytes := some (file.getD [] ++ bytes)

theorem oneFile_appending : Appending oneFile id where
  size _ := rfl
  create _ _ _ := rfl
  append s old bytes h := by
    rw [id] at h
    rw [id, h]
    rfl

/-- A message is logged and flushed, and then another one is logged. -/
def logFlushLog : List LoggerCall :=
  [.log ⟨.warning, .fs, [0x41#8, 0x42#8, 0#8]⟩, .flush true true, .log ⟨.info, .kernel, [0x43#8]⟩]

/-- What a reader gets that goes by the header: `entry_count` records of `entry_size` bytes. -/
def readLog (file : List Byte) : List LogEntryBinary :=
  let entrySize := ofLE ((file.drop 6).take 2)
  let entryCount := ofLE ((file.drop 8).take 4)
  (List.range entryCount).map fun i =>
    LogEntryBinary.parse ((file.drop (64 + i * entrySize)).take entrySize)

/-- The header always says that there are no records. -/
theorem readLog_fileBytes (bins : List LogEntryBinary) : readLog (fileBytes bins) = [] := by
  have hcount : ((fileBytes bins).drop 8).take 4 = (newHeader.bytes.drop 8).take 4 := by
    rw [fileBytes, List.drop_append_of_le_length (by decide),
      List.take_append_of_le_length (by decide)]
  rw [readLog, hcount]
  rfl

theorem LogFile.readLog_eq {logger : EventLogger} {calls : List LogCall}
    {file : Option (List Byte)} {bins : List LogEntryBinary} {ks : List Nat} {m : Nat}
    (h : LogFile logger calls file bins ks m) : readLog (file.getD []) = [] := by
  rcases h.file_eq with ⟨hfile, _⟩ | hfile
  · rw [hfile]
    rfl
  · rw [hfile, Option.getD_some, readLog_fileBytes]

/-- A call of `Flush` that can write comes after a call of `Log`. -/
def FlushAfterLog (ops : List LoggerCall) : Prop :=
  ∃ before after, ops = before ++ .flush true true :: after ∧ logCalls before ≠ []

section

variable {σ : Type*} (fs : LogFileSystem σ)

theorem flushedDuring_append (s : EventLogger × σ) (before after : List LoggerCall) :
    flushedDuring fs s (before ++ after) =
      flushedDuring fs s before ++ flushedDuring fs (runLogger fs s before) after := by
  induction before generalizing s with
  | nil => rfl
  | cons op before ih =>
    cases op with
    | log call => exact ih _
    | flush mounted memory =>
      rw [List.cons_append, flushedDuring, flushedDuring, runLogger, ih, List.append_assoc]

/-- As long as nothing was logged there is nothing to flush. -/
theorem flushedDuring_eq_nil {logger : EventLogger} {calls : List LogCall}
    (h : Recorded logger calls) (disk : σ) (ops : List LoggerCall)
    (hops : ∀ before after, ops = before ++ .flush true true :: after →
      calls ++ logCalls before = []) :
    flushedDuring fs (logger, disk) ops = [] := by
  induction ops generalizing logger calls disk with
  | nil => rfl
  | cons op ops ih =>
    cases op with
    | log call =>
      refine ih (h.log call) disk fun before after heq => ?_
      rw [List.append_assoc, List.singleton_append]
      exact hops (.log call :: before) after (by rw [heq]; rfl)
    | flush mounted memory =>
      have hrest := ih (h.flush fs mounted memory disk) (logger.flush fs mounted memory disk).2
        fun before after heq => hops (.flush mounted memory :: before) after (by rw [heq]; rfl)
      rw [flushedDuring, hrest, List.append_nil, EventLogger.flushedBins]
      cases mounted with
      | false => rfl
      | true =>
        cases memory with
        | false => simp
        | true =>
          have hcalls := hops [] ops rfl
          rw [logCalls, List.append_nil] at hcalls
          have hcount : logger.count = 0 := by rw [h.count, hcalls]; rfl
          have hidle : logger.entriesToFlush = 0 := by rw [EventLogger.entriesToFlush, hcount]; rfl
          simp [hidle]

end

/-- The latest entry is not marked before a call of `Flush` has written something, and then
the next one writes. -/
theorem LogFile.flushedBins_ne_nil {logger : EventLogger} {calls : List LogCall}
    {file : Option (List Byte)} {ks : List Nat} {m : Nat}
    (h : LogFile logger calls file [] ks m) (hcalls : calls ≠ []) :
    logger.flushedBins true true ≠ [] := by
  have hpos : 0 < calls.length := List.length_pos_iff.mpr hcalls
  have hks : ks = [] := by
    have hdecoded := h.decoded
    rw [List.map_nil, eq_comm, List.map_eq_nil_iff] at hdecoded
    exact hdecoded
  have hlatest : m < calls.length := by
    by_contra hall
    have hgone := h.missing (calls.length - 1) (by omega) (by rw [hks]; exact List.not_mem_nil)
    omega
  have hall := oldestCall_eq calls
  have hentries := h.recorded.entriesToFlush_eq h.marked
  obtain ⟨first, hfirst⟩ : ∃ first, first = max m (oldestCall calls + 0) := ⟨_, rfl⟩
  obtain ⟨last, hlast⟩ : ∃ last, last = min calls.length (first + (logger.flushCount - 0)) :=
    ⟨_, rfl⟩
  have hcount : 0 < logger.flushCount := by
    rw [EventLogger.flushCount]
    split <;> omega
  obtain ⟨new, hnew, hflushed⟩ := flushLoop_spec h.le_calls logger.flushCount h.recorded
    logger.count 0 [] (Nat.zero_add _) h.marked hfirst hlast
  have hidle : logger.entriesToFlush ≠ 0 := by omega
  intro hnil
  simp only [EventLogger.flushedBins, hidle, Bool.not_true, decide_false, Bool.or_false,
    Bool.false_eq_true, if_false, hnew, List.nil_append] at hnil
  rw [hflushed.new_eq, List.map_eq_nil_iff, List.range'_eq_nil_iff] at hnil
  omega

/-- A reader that goes by the header gets back what was flushed exactly when no call of
`Flush` came after one of `Log`. -/
theorem log_file_read_back_iff {σ : Type*} (fs : LogFileSystem σ)
    (contents : σ → Option (List Byte)) (hfs : Appending fs contents) (memory : Nat → Buffer)
    (disk : σ) (hnone : contents disk = none) (ops : List LoggerCall) :
    readLog ((contents (runLogger fs (.create memory, disk) ops).2).getD []) =
        flushedDuring fs (.create memory, disk) ops ↔
      ¬ FlushAfterLog ops := by
  obtain ⟨ks, m, h⟩ := LogFile.of_run hfs memory hnone ops
  rw [h.readLog_eq]
  constructor
  · rintro hnil ⟨before, after, rfl, hlogged⟩
    rw [flushedDuring_append, eq_comm, List.append_eq_nil_iff] at hnil
    obtain ⟨ks', m', hbefore⟩ := LogFile.of_run hfs memory hnone before
    rw [hnil.1] at hbefore
    have hwritten := hbefore.flushedBins_ne_nil hlogged
    rw [flushedDuring, List.append_eq_nil_iff] at hnil
    exact hwritten hnil.2.1
  · intro hnot
    refine (flushedDuring_eq_nil fs (.create memory) disk ops fun before after heq => ?_).symm
    by_contra hlogged
    exact hnot ⟨before, after, heq, hlogged⟩

/-- Messages are logged, and no call of `Flush` can write: the file system is not mounted, and then
there is no memory. -/
def logUnwritten : List LoggerCall :=
  [.log ⟨.warning, .fs, [0x41#8, 0x42#8, 0#8]⟩, .flush false true,
    .log ⟨.info, .kernel, [0x43#8]⟩, .flush true false]

theorem log_file_read_back_unwritten :
    readLog ((runLogger oneFile (.create fun _ _ => 0, none) logUnwritten).2.getD []) =
      flushedDuring oneFile (.create fun _ _ => 0, none) logUnwritten := by
  refine (log_file_read_back_iff oneFile id oneFile_appending (fun _ _ => 0) none rfl _).mpr ?_
  rintro ⟨before, after, heq, -⟩
  have hmem : LoggerCall.flush true true ∈ logUnwritten := by
    rw [heq]
    simp
  simp [logUnwritten] at hmem

/-- One entry was flushed, and the header says that there is none. -/
theorem log_file_not_read_back :
    readLog ((runLogger oneFile (.create fun _ _ => 0, none) logFlushLog).2.getD []) ≠
      flushedDuring oneFile (.create fun _ _ => 0, none) logFlushLog := by
  intro h
  have hread : (readLog ((runLogger oneFile (.create fun _ _ => 0, none)
      logFlushLog).2.getD [])).length = 0 := rfl
  have hflushed : (flushedDuring oneFile (.create fun _ _ => 0, none) logFlushLog).length = 1 := rfl
  rw [h, hflushed] at hread
  exact absurd hread (by decide)

end Sylphia
