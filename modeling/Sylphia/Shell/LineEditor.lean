import Sylphia.Sys.Spawn
import Sylphia.Sys.Tokenizer

/-!
# The user shell

The shell of `apps/shell` keeps the line that is typed in `buffer_`, and at the end of the line
splits it there and runs one command. What it wants of the kernel goes through a few system calls.
In terms of lines it is a simple machine, and the buffer does what that machine does.
-/

namespace Sylphia.Shell

open Bytes Words

/-- The calls the shell makes, on whatever world is behind them. -/
structure SystemCalls (ω : Type) where
  /-- `Print` of a string. -/
  print : ω → List Byte → ω
  /-- `ListDirectory(0)`. -/
  listDirectory : ω → ω
  /-- `ReadFile`: the buffer afterwards and the number returned. -/
  readFile : ω → List Byte → Buffer → Nat → ω × Buffer × Int
  /-- `DeleteFile`. -/
  deleteFile : ω → List Byte → ω × Int
  /-- `Spawn`: the number of the task, 0 if there is none. -/
  spawn : ω → List Byte → List (List Byte) → ω × Nat
  /-- `Exit`, which does not return. -/
  exit : ω → ω
  /-- `Yield`. -/
  yield : ω → ω

/-- How the work on a key ends: the shell goes on, or has called `Exit`, or bytes outside one of
its arrays are used. -/
inductive Outcome (σ ω : Type)
  | running (shell : σ) (world : ω)
  | exited (world : ω)
  | overrun
  deriving DecidableEq

namespace Outcome

variable {σ τ ω : Type}

/-- Go on if the shell does. -/
def bind (o : Outcome σ ω) (f : σ → ω → Outcome τ ω) : Outcome τ ω :=
  match o with
  | .running s w => f s w
  | .exited w => .exited w
  | .overrun => .overrun

/-- The same end, with shells that belong together. -/
inductive Agree (R : σ → τ → Prop) : Outcome σ ω → Outcome τ ω → Prop
  | running {s : σ} {t : τ} (h : R s t) (w : ω) : Agree R (.running s w) (.running t w)
  | exited (w : ω) : Agree R (.exited w) (.exited w)
  | overrun : Agree R .overrun .overrun

theorem Agree.refl (o : Outcome σ ω) : Agree Eq o o := by
  cases o with
  | running s w => exact .running rfl w
  | exited w => exact .exited w
  | overrun => exact .overrun

/-- What goes on from the same ends has the same end. -/
theorem Agree.bind {σ' τ' : Type} {R : σ → τ → Prop} {R' : σ' → τ' → Prop} {o : Outcome σ ω}
    {o' : Outcome τ ω} {f : σ → ω → Outcome σ' ω} {g : τ → ω → Outcome τ' ω} (h : Agree R o o')
    (hnext : ∀ s t w, R s t → Agree R' (f s w) (g t w)) : Agree R' (o.bind f) (o'.bind g) := by
  cases h with
  | running h w => exact hnext _ _ w h
  | exited w => exact .exited w
  | overrun => exact .overrun

end Outcome

/-- The bytes of a literal. -/
def ascii (s : String) : List Byte := s.toList.map fun c => BitVec.ofNat 8 c.toNat

/-- `kMaxCommandLen`. -/
def maxCommandLen : Nat := 256

/-- The size of `path` in `ExecuteCommand`. -/
def pathSize : Nat := 64

/-- The size of `buf` for the command `cat`. -/
def fileSize : Nat := 4096

/-- `strcmp`, on what is in front of the zeros. -/
def strcmp : List Byte → List Byte → Int
  | [], [] => 0
  | [], b :: _ => 0 - b.toInt
  | a :: _, [] => a.toInt
  | a :: s, b :: t => if a = b then strcmp s t else a.toInt - b.toInt

/-- What `PrintPrompt` prints. -/
def prompt : List Byte := ascii "Sylphia:/$ "

def newline : List Byte := [0x0A]

section

variable {ω : Type} (sys : SystemCalls ω)

/-- `Print` of one string after the other. -/
def SystemCalls.prints (w : ω) (strings : List (List Byte)) : ω := strings.foldl sys.print w

/-- The command `cat`. -/
def cat (shown : Bool) (w : ω) (path : List Byte) : Outcome Bool ω :=
  let (w, buf, bytes) := sys.readFile w path (fun _ => 0) (fileSize - 1)
  if bytes > 0 then
    if bytes ≥ fileSize then .overrun
    else .running shown (sys.prints w [cstring (splice buf bytes.toNat [0]) 0 fileSize, newline])
  else .running shown (sys.print w (ascii "Error: File not found or empty.\n"))

/-- The command `rm`. -/
def rm (shown : Bool) (w : ω) (path : List Byte) : Outcome Bool ω :=
  let (w, result) := sys.deleteFile w path
  .running shown (sys.prints w
    [ascii (if result = 0 then "Deleted " else "Could not delete "), path, newline])

/-- A command of another program, from the directory `/sys/bin`. -/
def external (shown : Bool) (w : ω) (argv : List (List Byte)) (name : List Byte) :
    Outcome Bool ω :=
  let path := ascii "/sys/bin/" ++ name
  if path.length + 1 > pathSize then .overrun
  else
    let (w, taskId) := sys.spawn w path argv
    if taskId = 0 then .running shown (sys.prints w [ascii "Unknown command: ", name, newline])
    else .running false w

/-- `ExecuteCommand` once the line is split: the value of `prompt_shown_` afterwards. -/
def command (shown : Bool) (w : ω) : List (List Byte) → Outcome Bool ω
  | [] => .running shown w
  | name :: args =>
    if strcmp name (ascii "clear") = 0 then
      .running shown (sys.prints w (List.replicate 30 newline))
    else if strcmp name (ascii "echo") = 0 then
      match args with
      | [] => .running shown w
      | arg :: _ => .running shown (sys.prints w [arg, newline])
    else if strcmp name (ascii "ls") = 0 then .running shown (sys.listDirectory w)
    else if strcmp name (ascii "cat") = 0 then
      match args with
      | [] => .running shown (sys.print w (ascii "Usage: cat <filename>\n"))
      | arg :: _ => cat sys shown w arg
    else if strcmp name (ascii "rm") = 0 then
      match args with
      | [] => .running shown (sys.print w (ascii "Usage: rm <filename>\n"))
      | arg :: _ => rm sys shown w arg
    else if strcmp name (ascii "sys") = 0 then
      .running shown (sys.prints w
        [ascii "=============== Sylphia-OS ZERO ===============\n",
          ascii "Shell running in user mode!\n", ascii "Rust\n",
          ascii "===============================================\n"])
    else if strcmp name (ascii "exit") = 0 then
      .exited (sys.exit (sys.print w (ascii "Exiting shell...\n")))
    else external sys shown w (name :: args) name

end

/-- `Shell`: `buffer_`, `cursor_pos_` and `prompt_shown_`. -/
structure UserShell where
  buffer : Buffer
  cursorPos : Nat
  promptShown : Bool

namespace UserShell

variable {ω : Type} (sys : SystemCalls ω)

/-- The constructor. -/
def create : UserShell := ⟨fun _ => 0, 0, false⟩

/-- `ExecuteCommand`; what it leaves of the line is cleared by its caller. -/
def executeCommand (s : UserShell) (w : ω) : Outcome Bool ω :=
  if s.cursorPos = 0 then .running s.promptShown w
  else
    match tokenize maxCommandLen s.buffer 0 [] with
    | none => .overrun
    | some (buf, argv) =>
      command sys s.promptShown w (argv.map fun p => cstring buf p stringBound)

/-- `OnKey`. -/
def onKey (s : UserShell) (w : ω) (c : Byte) : Outcome UserShell ω :=
  if c = 0 then .running s w
  else
    let w := if s.promptShown then w else sys.print w prompt
    let s := { s with promptShown := true }
    if c = 0x0A then
      (executeCommand sys s (sys.print w newline)).bind fun shown w =>
        .running ⟨fun _ => 0, 0, shown⟩ (if shown then sys.print w prompt else w)
    else if c = 0x08 then
      if s.cursorPos > 0 then
        .running ⟨splice s.buffer (s.cursorPos - 1) [0], s.cursorPos - 1, true⟩
          (sys.print w [0x08])
      else .running s w
    else if s.cursorPos < maxCommandLen - 1 then
      .running ⟨splice s.buffer s.cursorPos [c], s.cursorPos + 1, true⟩ (sys.print w [c])
    else .running s w

/-- The loop over the bytes of one `Read`. -/
def onKeys (s : UserShell) (w : ω) : List Byte → Outcome UserShell ω
  | [] => .running s w
  | c :: cs => (onKey sys s w c).bind fun s w => onKeys s w cs

/-- The loop of `Run`, with what each `Read` gives. -/
def loop (s : UserShell) (w : ω) : List (List Byte) → Outcome UserShell ω
  | [] => .running s w
  | bytes :: reads => (onKeys sys s w bytes).bind fun s w => loop s (sys.yield w) reads

/-- `Run`. -/
def run (s : UserShell) (w : ω) (reads : List (List Byte)) : Outcome UserShell ω :=
  let w := sys.prints w [ascii "\nWelcome to Sylphia-OS Shell!\n", prompt]
  loop sys { s with promptShown := true } w reads

end UserShell

/-- A line that is typed, and whether there is a prompt in front of it. -/
structure LineShell where
  line : List Byte
  promptShown : Bool
  deriving DecidableEq

namespace LineShell

variable {ω : Type} (sys : SystemCalls ω)

/-- A character is put behind the line while it has room. -/
def insert (c : Byte) (line : List Byte) : List Byte :=
  if line.length < maxCommandLen - 1 then line ++ [c] else line

/-- What a line makes the shell do; words beyond the room in `argv` stay with the last one. -/
def enter (w : ω) (line : List Byte) : Outcome Bool ω :=
  command sys true w (wordsUpTo 0x20 maxArguments line)

/-- A key of the machine. -/
def onKey (s : LineShell) (w : ω) (c : Byte) : Outcome LineShell ω :=
  if c = 0 then .running s w
  else
    let w := if s.promptShown then w else sys.print w prompt
    if c = 0x0A then
      (enter sys (sys.print w newline) s.line).bind fun shown w =>
        .running ⟨[], shown⟩ (if shown then sys.print w prompt else w)
    else if c = 0x08 then
      .running ⟨s.line.dropLast, true⟩ (if s.line = [] then w else sys.print w [0x08])
    else
      .running ⟨insert c s.line, true⟩
        (if s.line.length < maxCommandLen - 1 then sys.print w [c] else w)

/-- Key after key. -/
def onKeys (s : LineShell) (w : ω) : List Byte → Outcome LineShell ω
  | [] => .running s w
  | c :: cs => (onKey sys s w c).bind fun s w => onKeys s w cs

/-- The keys of one read after the other. -/
def loop (s : LineShell) (w : ω) : List (List Byte) → Outcome LineShell ω
  | [] => .running s w
  | bytes :: reads => (onKeys sys s w bytes).bind fun s w => loop s (sys.yield w) reads

end LineShell

/-! ## The buffer does what the machine does -/

/-- The buffer has the line, with zeros behind it. -/
structure Edits (s : UserShell) (l : LineShell) : Prop where
  string : StringAt s.buffer 0 l.line
  cursor : s.cursorPos = l.line.length
  short : l.line.length < maxCommandLen
  cleared : ∀ k, l.line.length ≤ k → k < maxCommandLen → s.buffer k = 0
  shown : s.promptShown = l.promptShown

namespace Edits

variable {s : UserShell} {l : LineShell} {c : Byte} {shown : Bool}

theorem clear (shown : Bool) : Edits ⟨fun _ => 0, 0, shown⟩ ⟨[], shown⟩ where
  string := ⟨nofun, rfl, List.not_mem_nil⟩
  cursor := rfl
  short := (by decide : 0 < maxCommandLen)
  cleared := fun _ _ _ => rfl
  shown := rfl

/-- A character goes where the zero behind the line was. -/
theorem insert (h : Edits s l) (hroom : l.line.length < maxCommandLen - 1) (hc : c ≠ 0) :
    Edits ⟨splice s.buffer s.cursorPos [c], s.cursorPos + 1, shown⟩ ⟨l.line ++ [c], shown⟩ where
  string := by
    have hat (k : Nat) (hk : k < l.line.length) :
        splice s.buffer s.cursorPos [c] k = l.line[k] := by
      rw [splice_of_lt (by rw [h.cursor]; exact hk), ← h.string.bytes k hk, Nat.zero_add]
    have hnew : splice s.buffer s.cursorPos [c] l.line.length = c := by
      rw [splice, if_pos h.cursor.le, h.cursor, Nat.sub_self]
      rfl
    refine ⟨fun k hk => ?_, ?_, ?_⟩
    · rw [Nat.zero_add, List.getElem_append]
      split
      · next hlt => exact hat k hlt
      · next hge =>
        rw [List.length_append, List.length_singleton] at hk
        obtain rfl : k = l.line.length := by omega
        simpa using hnew
    · rw [List.length_append, List.length_singleton, Nat.zero_add]
      refine (splice_of_ge ?_).trans (h.cleared _ (Nat.le_succ _) (by omega))
      rw [h.cursor]
      exact Nat.le_refl _
    · rw [List.mem_append, List.mem_singleton, not_or]
      exact ⟨h.string.noZero, fun h0 => hc h0.symm⟩
  cursor := by rw [h.cursor, List.length_append, List.length_singleton]
  short := by
    rw [List.length_append, List.length_singleton]
    omega
  cleared := by
    intro k hk hlt
    rw [List.length_append, List.length_singleton] at hk
    refine (splice_of_ge ?_).trans (h.cleared k (by omega) hlt)
    rw [h.cursor]
    exact hk
  shown := rfl

/-- The last character is written over with a zero. -/
theorem erase (h : Edits s l) (hne : l.line ≠ []) :
    Edits ⟨splice s.buffer (s.cursorPos - 1) [0], s.cursorPos - 1, shown⟩
      ⟨l.line.dropLast, shown⟩ where
  string := by
    have hpos := List.length_pos_iff.mpr hne
    have hsplit := List.dropLast_append_getLast hne
    have hstring := h.string
    rw [← hsplit] at hstring
    refine hstring.front (fun k hk => splice_of_lt ?_) ?_
    · rw [List.length_dropLast] at hk
      rw [h.cursor]
      omega
    · rw [Nat.zero_add, List.length_dropLast, h.cursor]
      exact splice_zero_self _ _
  cursor := by rw [h.cursor, List.length_dropLast]
  short := by
    have := h.short
    rw [List.length_dropLast]
    omega
  cleared := by
    intro k hk hlt
    rw [List.length_dropLast] at hk
    by_cases hlast : k = s.cursorPos - 1
    · rw [hlast]
      exact splice_zero_self _ _
    · have hpos := List.length_pos_iff.mpr hne
      have hcursor := h.cursor
      refine (splice_of_ge ?_).trans (h.cleared k (by omega) hlt)
      rw [List.length_singleton]
      omega
  shown := rfl

end Edits

section Simulation

variable {ω : Type} (sys : SystemCalls ω) {s : UserShell} {l : LineShell}

/-- What `argv` points at. -/
theorem map_cstring {buf : Buffer} {argv : List Nat} {strings : List (List Byte)}
    (h : List.Forall₂ (StringAt buf) argv strings)
    (hshort : ∀ s ∈ strings, s.length ≤ stringBound) :
    (argv.map fun p => cstring buf p stringBound) = strings := by
  induction h with
  | nil => rfl
  | @cons p s argv strings hat _ ih =>
    rw [List.forall_mem_cons] at hshort
    rw [List.map_cons, hat.cstring_eq hshort.1, ih hshort.2]

/-- The command that is run is that of the line. -/
theorem executeCommand_eq (h : Edits s l) (w : ω) : UserShell.executeCommand sys s w =
    command sys s.promptShown w (wordsUpTo 0x20 maxArguments l.line) := by
  rw [UserShell.executeCommand, h.cursor]
  by_cases hnil : l.line = []
  · rw [if_pos (by rw [hnil]; rfl), hnil]
    rfl
  · rw [if_neg (by rwa [List.length_eq_zero_iff])]
    obtain ⟨buf, new, htokens, hstrings, -, -⟩ :=
      @tokenize_run s.buffer 0 maxCommandLen l.line [] h.string h.short (by decide)
    rw [htokens]
    dsimp only
    rw [List.nil_append]
    congr 1
    refine map_cstring hstrings fun s hs => ?_
    have hle := (isInfix_of_mem_wordsUpTo hs).length_le
    have hshort := h.short
    rw [maxCommandLen] at hshort
    rw [stringBound]
    omega

/-- A key has the same effect on both. -/
theorem onKey_agree (h : Edits s l) (w : ω) (c : Byte) :
    Outcome.Agree Edits (UserShell.onKey sys s w c) (LineShell.onKey sys l w c) := by
  rw [UserShell.onKey, LineShell.onKey, h.shown]
  by_cases h0 : c = 0
  · rw [if_pos h0, if_pos h0]
    exact .running h w
  rw [if_neg h0, if_neg h0]
  generalize (if l.promptShown then w else sys.print w prompt) = w
  have h : Edits { s with promptShown := true } ⟨l.line, true⟩ :=
    ⟨h.string, h.cursor, h.short, h.cleared, rfl⟩
  dsimp only
  by_cases henter : c = 0x0A
  · rw [if_pos henter, if_pos henter, executeCommand_eq sys h, LineShell.enter]
    refine Outcome.Agree.bind (.refl _) fun shown _ w hsame => ?_
    subst hsame
    exact .running (.clear shown) _
  rw [if_neg henter, if_neg henter]
  have hcursor : s.cursorPos = l.line.length := h.cursor
  by_cases herase : c = 0x08
  · rw [if_pos herase, if_pos herase]
    by_cases hnil : l.line = []
    · rw [hnil] at h hcursor
      rw [if_neg (by rw [hcursor]; exact Nat.lt_irrefl 0), if_pos hnil, hnil]
      exact .running h w
    · rw [if_pos (hcursor ▸ List.length_pos_iff.mpr hnil), if_neg hnil]
      exact .running (h.erase hnil) _
  rw [if_neg herase, if_neg herase, LineShell.insert]
  by_cases hroom : l.line.length < maxCommandLen - 1
  · rw [if_pos (hcursor ▸ hroom), if_pos hroom, if_pos hroom]
    exact .running (h.insert hroom h0) _
  · rw [if_neg (hcursor ▸ hroom), if_neg hroom, if_neg hroom]
    exact .running h w

theorem onKeys_agree (h : Edits s l) (w : ω) (keys : List Byte) :
    Outcome.Agree Edits (UserShell.onKeys sys s w keys) (LineShell.onKeys sys l w keys) := by
  induction keys generalizing s l w with
  | nil => exact .running h w
  | cons c keys ih => exact (onKey_agree sys h w c).bind fun _ _ w h => ih h w

theorem loop_agree (h : Edits s l) (w : ω) (reads : List (List Byte)) :
    Outcome.Agree Edits (UserShell.loop sys s w reads) (LineShell.loop sys l w reads) := by
  induction reads generalizing s l w with
  | nil => exact .running h w
  | cons keys reads ih => exact (onKeys_agree sys h w keys).bind fun _ _ w h => ih h _

/-- The shell edits lines: whatever its system calls do, and however the keys are spread over the
reads, it does what the machine of lines does, and its buffer has the line that the machine has. -/
theorem shell_edits_lines (w : ω) (reads : List (List Byte)) :
    Outcome.Agree Edits (UserShell.run sys UserShell.create w reads)
      (LineShell.loop sys ⟨[], true⟩
        (sys.prints w [ascii "\nWelcome to Sylphia-OS Shell!\n", prompt]) reads) :=
  loop_agree sys (.clear true) _ reads

end Simulation

end Sylphia.Shell
