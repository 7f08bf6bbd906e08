import Sylphia.Shell.LineEditor

/-!
# What the lines make the shell do

The shell goes on until a line names `exit`, or names a program whose path does not fit `path`. A
line that names a program has it started with the words of the line, and these arrive there: the
buffers that `Spawn` copies through have room for what can be typed.
-/

namespace Sylphia.Shell

open Bytes Words

/-! ## The end of the shell -/

/-- The lines that the keys enter, the first of them behind what is typed already. -/
def entered (line : List Byte) : List Byte → List (List Byte)
  | [] => []
  | c :: keys =>
    if c = 0 then entered line keys
    else if c = 0x0A then line :: entered [] keys
    else if c = 0x08 then entered line.dropLast keys
    else entered (LineShell.insert c line) keys

/-- How far a shell got. -/
inductive Fate
  | running
  | exited
  | overrun
  deriving DecidableEq

def Outcome.fate {σ ω : Type} : Outcome σ ω → Fate
  | .running _ _ => .running
  | .exited _ => .exited
  | .overrun => .overrun

/-- The name of a program whose path does not fit. -/
abbrev TooLong (name : List Byte) : Prop :=
  (ascii "/sys/bin/" ++ name).length + 1 > pathSize

/-- How far the lines let the shell get: their first words tell. -/
def fateOf : List (List Byte) → Fate
  | [] => .running
  | line :: lines =>
    match (words 0x20 line).head? with
    | none => fateOf lines
    | some name =>
      if name = ascii "exit" then .exited
      else if TooLong name then .overrun
      else fateOf lines

section Commands

variable {ω : Type} (sys : SystemCalls ω) {s t name : List Byte}

/-- `strcmp` tells strings apart. -/
theorem strcmp_eq_zero_iff (hs : 0 ∉ s) (ht : 0 ∉ t) : strcmp s t = 0 ↔ s = t := by
  have htoInt {b : Byte} : b.toInt = 0 ↔ b = 0 := by
    rw [show (0 : Int) = (0 : Byte).toInt from rfl, BitVec.toInt_inj]
  induction s generalizing t with
  | nil =>
    cases t with
    | nil => exact iff_of_true rfl rfl
    | cons b t =>
      rw [List.mem_cons, not_or] at ht
      refine iff_of_false (fun h => ht.1 ?_) (by simp)
      rw [strcmp, Int.zero_sub, Int.neg_eq_zero] at h
      exact (htoInt.mp h).symm
  | cons a s ih =>
    rw [List.mem_cons, not_or] at hs
    cases t with
    | nil =>
      refine iff_of_false (fun h => hs.1 ?_) (by simp)
      exact (htoInt.mp h).symm
    | cons b t =>
      rw [List.mem_cons, not_or] at ht
      rw [strcmp, List.cons_eq_cons]
      by_cases hab : a = b
      · rw [if_pos hab, and_iff_right hab]
        exact ih hs.2 ht.2
      · rw [if_neg hab]
        refine iff_of_false (fun h => hab ?_) fun h => hab h.1
        exact BitVec.toInt_inj.mp (Int.sub_eq_zero.mp h)

/-- The commands that the shell has itself. -/
def builtins : List (List Byte) :=
  [ascii "clear", ascii "echo", ascii "ls", ascii "cat", ascii "rm", ascii "sys", ascii "exit"]

/-- `ReadFile` returns no more than it was asked for. -/
def SystemCalls.ReadsWithin : Prop :=
  ∀ w path buf len, (sys.readFile w path buf len).2.2 ≤ len

/-- A name that the shell does not know is that of a program. -/
theorem command_external (shown : Bool) (w : ω) (args : List (List Byte)) (h0 : 0 ∉ name)
    (hname : name ∉ builtins) :
    command sys shown w (name :: args) = external sys shown w (name :: args) name := by
  have hno (s : List Byte) (hs : s ∈ builtins) (hs0 : 0 ∉ s) : strcmp name s ≠ 0 := by
    rw [Ne, strcmp_eq_zero_iff h0 hs0]
    rintro rfl
    exact hname hs
  rw [builtins] at hno
  simp only [List.forall_mem_cons] at hno
  obtain ⟨hclear, hecho, hls, hcat, hrm, hsys, hexit, -⟩ := hno
  rw [command.eq_def]
  dsimp only
  rw [if_neg (hclear (by decide)), if_neg (hecho (by decide)), if_neg (hls (by decide)),
    if_neg (hcat (by decide)), if_neg (hrm (by decide)), if_neg (hsys (by decide)),
    if_neg (hexit (by decide))]

theorem external_fate (shown : Bool) (w : ω) (argv : List (List Byte)) (name : List Byte) :
    (external sys shown w argv name).fate = if TooLong name then .overrun else .running := by
  rw [external]
  dsimp only
  split
  · rfl
  · split <;> rfl

theorem cat_fate (hread : sys.ReadsWithin) (shown : Bool) (w : ω) (path : List Byte) :
    (cat sys shown w path).fate = .running := by
  have hle := hread w path (fun _ => 0) (fileSize - 1)
  rw [cat]
  generalize sys.readFile w path (fun _ => 0) (fileSize - 1) = r at hle
  obtain ⟨w, buf, bytes⟩ := r
  dsimp only at hle ⊢
  have hlt : ¬bytes ≥ fileSize := by
    rw [fileSize] at hle ⊢
    omega
  rw [if_neg hlt]
  split <;> rfl

/-- A command ends the shell if it is `exit`, or if its path is too long. -/
theorem command_fate (hread : sys.ReadsWithin) (shown : Bool) (w : ω) (args : List (List Byte))
    (h0 : 0 ∉ name) : (command sys shown w (name :: args)).fate =
      if name = ascii "exit" then .exited
      else if TooLong name then .overrun
      else .running := by
  by_cases hname : name ∈ builtins
  · simp only [builtins, List.mem_cons, List.not_mem_nil, or_false] at hname
    rcases hname with rfl | rfl | rfl | rfl | rfl | rfl | rfl
    · rfl
    · cases args <;> rfl
    · rfl
    · cases args with
      | nil => rfl
      | cons path args => exact cat_fate sys hread shown w path
    · cases args <;> rfl
    · rfl
    · rfl
  · have hexit : name ≠ ascii "exit" := fun h => hname (h ▸ by decide)
    rw [command_external sys shown w args h0 hname, external_fate, if_neg hexit]

end Commands

section Fate

variable {σ τ ω : Type} (sys : SystemCalls ω) {l : LineShell} {line keys more : List Byte}

theorem Outcome.Agree.fate {R : σ → τ → Prop} {o : Outcome σ ω} {o' : Outcome τ ω}
    (h : Outcome.Agree R o o') : o.fate = o'.fate := by
  cases h <;> rfl

theorem Outcome.bind_assoc {ρ : Type} (o : Outcome σ ω) (f : σ → ω → Outcome τ ω)
    (g : τ → ω → Outcome ρ ω) : (o.bind f).bind g = o.bind fun s w => (f s w).bind g := by
  cases o <;> rfl

theorem Outcome.bind_running (o : Outcome σ ω) : (o.bind fun s w => .running s w) = o := by
  cases o <;> rfl

theorem Outcome.fate_bind {o : Outcome σ ω} {f : σ → ω → Outcome τ ω} {fate : Fate}
    (hnext : ∀ s w, (f s w).fate = fate) :
    (o.bind f).fate = if o.fate = .running then fate else o.fate := by
  cases o with
  | running s w => exact hnext s w
  | exited w => rfl
  | overrun => rfl

/-- A line that is entered decides, or leaves it to the lines behind it. -/
theorem enter_fate (hread : sys.ReadsWithin) (hline : 0 ∉ line) (w : ω)
    {f : Bool → ω → Outcome σ ω} {lines : List (List Byte)}
    (hnext : ∀ shown w, (f shown w).fate = fateOf lines) :
    ((LineShell.enter sys w line).bind f).fate = fateOf (line :: lines) := by
  have hhead := @head?_wordsUpTo _ _ (0x20 : Byte) 30 line
  rw [Outcome.fate_bind hnext, LineShell.enter, fateOf, maxArguments, ← hhead]
  cases hargv : wordsUpTo 0x20 32 line with
  | nil => rfl
  | cons name args =>
    have hname : name ∈ wordsUpTo 0x20 32 line := by
      rw [hargv]
      exact List.mem_cons_self
    have h0 : 0 ∉ name := fun h => hline ((isInfix_of_mem_wordsUpTo hname).subset h)
    rw [command_fate sys hread true w args h0, List.head?_cons]
    dsimp only
    split_ifs <;> first | rfl | contradiction

theorem zero_not_mem_insert {c : Byte} (hc : c ≠ 0) (hline : 0 ∉ line) :
    0 ∉ LineShell.insert c line := by
  rw [LineShell.insert]
  split
  · rw [List.mem_append, List.mem_singleton, not_or]
    exact ⟨hline, fun h => hc h.symm⟩
  · exact hline

/-- What the keys decide, or leave to what follows them. -/
theorem onKeys_fate (hread : sys.ReadsWithin) (hline : 0 ∉ l.line) (w : ω)
    {f : LineShell → ω → Outcome σ ω}
    (hnext : ∀ (l : LineShell) w, 0 ∉ l.line → (f l w).fate = fateOf (entered l.line more)) :
    ((LineShell.onKeys sys l w keys).bind f).fate = fateOf (entered l.line (keys ++ more)) := by
  induction keys generalizing l w with
  | nil => exact hnext l w hline
  | cons c keys ih =>
    rw [LineShell.onKeys, Outcome.bind_assoc, LineShell.onKey, List.cons_append, entered]
    by_cases h0 : c = 0
    · rw [if_pos h0, if_pos h0]
      exact ih hline w
    rw [if_neg h0, if_neg h0]
    by_cases henter : c = 0x0A
    · rw [if_pos henter, if_pos henter, Outcome.bind_assoc]
      exact enter_fate sys hread hline _ fun shown w => ih List.not_mem_nil _
    rw [if_neg henter, if_neg henter]
    by_cases herase : c = 0x08
    · rw [if_pos herase, if_pos herase]
      exact ih (l := ⟨_, _⟩) (fun h => hline (List.dropLast_subset _ h)) _
    · rw [if_neg herase, if_neg herase]
      exact ih (l := ⟨_, _⟩) (zero_not_mem_insert h0 hline) _

theorem loop_fate (hread : sys.ReadsWithin) (hline : 0 ∉ l.line) (w : ω)
    (reads : List (List Byte)) :
    (LineShell.loop sys l w reads).fate = fateOf (entered l.line reads.flatten) := by
  induction reads generalizing l w with
  | nil => rfl
  | cons bytes reads ih =>
    rw [LineShell.loop, List.flatten_cons]
    exact onKeys_fate sys hread hline w fun l w hl => ih hl (sys.yield w)

/-- The shell runs, has called `Exit` or uses bytes outside its arrays just as the lines say that
the keys enter, whatever its system calls do and however the keys are spread over the reads. -/
theorem shell_fate (hread : sys.ReadsWithin) (w : ω) (reads : List (List Byte)) :
    (UserShell.run sys UserShell.create w reads).fate = fateOf (entered [] reads.flatten) := by
  have hagree := loop_agree sys (.clear true)
    (sys.prints w [ascii "\nWelcome to Sylphia-OS Shell!\n", prompt]) reads
  exact hagree.fate.trans (loop_fate sys hread List.not_mem_nil _ reads)

/-- System calls that write down what is printed, and what is started. -/
def recordingCalls : SystemCalls (List Byte × List (List (List Byte))) where
  print w s := (w.1 ++ s, w.2)
  listDirectory w := w
  readFile w _ buf _ := (w, buf, 0)
  deleteFile w _ := (w, -1)
  spawn w path argv := ((w.1, w.2 ++ [path :: argv]), w.2.length + 1)
  exit w := w
  yield w := w

/-- After a program with a name of 54 characters the shell still goes on to `exit`. -/
theorem shell_fate_small :
    (UserShell.run recordingCalls UserShell.create ([], []) [List.replicate 54 0x61#8 ++ [0x0A#8],
      ascii "ls\nexi", ascii "r\x08t\nls"]).fate = .exited := by
  refine (shell_fate recordingCalls (fun _ _ _ _ => Int.natCast_nonneg _) ([], []) _).trans ?_
  decide +kernel

end Fate

/-! ## A command that is typed -/

/-- The prompt, if it is not there, and the characters of the keys. -/
def echo {ω : Type} (sys : SystemCalls ω) (shown : Bool) (w : ω) : List Byte → Bool × ω
  | [] => (shown, w)
  | c :: keys => echo sys true (sys.print (if shown then w else sys.print w prompt) [c]) keys

/-- The same for reads, with a `Yield` after each. -/
def echoReads {ω : Type} (sys : SystemCalls ω) (shown : Bool) (w : ω) :
    List (List Byte) → Bool × ω
  | [] => (shown, w)
  | keys :: reads =>
    echoReads sys (echo sys shown w keys).1 (sys.yield (echo sys shown w keys).2) reads

/-- A line that names a program: nothing in it edits the line, its words fit `argv`, and the first
is not a command of the shell and fits `path`. -/
structure NamesProgram (line name : List Byte) : Prop where
  plain : ∀ c ∈ line, c ≠ 0 ∧ c ≠ 0x0A ∧ c ≠ 0x08
  short : line.length < maxCommandLen
  first : (words 0x20 line).head? = some name
  room : (words 0x20 line).length < maxArguments ∨
    (words 0x20 line).length = maxArguments ∧ line.getLast? ≠ some 0x20
  program : name ∉ builtins
  fits : ¬TooLong name

instance (line name : List Byte) : Decidable (NamesProgram line name) :=
  decidable_of_iff ((∀ c ∈ line, c ≠ 0 ∧ c ≠ 0x0A ∧ c ≠ 0x08) ∧ line.length < maxCommandLen ∧
    (words 0x20 line).head? = some name ∧ ((words 0x20 line).length < maxArguments ∨
      (words 0x20 line).length = maxArguments ∧ line.getLast? ≠ some 0x20) ∧ name ∉ builtins ∧
      ¬TooLong name)
    ⟨fun ⟨h₁, h₂, h₃, h₄, h₅, h₆⟩ => ⟨h₁, h₂, h₃, h₄, h₅, h₆⟩,
      fun ⟨h₁, h₂, h₃, h₄, h₅, h₆⟩ => ⟨h₁, h₂, h₃, h₄, h₅, h₆⟩⟩

/-- The shell has the program started with these arguments, and is ready for the next line. -/
def startProgram {ω : Type} (sys : SystemCalls ω) (w : ω) (argv : List (List Byte))
    (name : List Byte) : Outcome LineShell ω :=
  let (w, taskId) := sys.spawn w (ascii "/sys/bin/" ++ name) argv
  if taskId = 0 then
    .running ⟨[], true⟩ (sys.prints w [ascii "Unknown command: ", name, newline, prompt])
  else .running ⟨[], false⟩ w

/-- Strings as a caller of `Spawn` passes them. -/
def userStrings (argv : List (List Byte)) (i : Nat) : Option UserString :=
  match argv[i]? with
  | none => none
  | some s =>
    if h : s.contains 0#8 then none
    else some ⟨s, fun hmem => h (List.contains_iff_mem.mpr hmem)⟩

section Typed

variable {ω : Type} (sys : SystemCalls ω) {s : UserShell} {l : LineShell} {line name : List Byte}
  {shown : Bool}

/-- Characters that fit are put behind the line. -/
theorem onKeys_text {text : List Byte} (hplain : ∀ c ∈ text, c ≠ 0 ∧ c ≠ 0x0A ∧ c ≠ 0x08)
    (hroom : line.length + text.length < maxCommandLen) (w : ω) :
    LineShell.onKeys sys ⟨line, shown⟩ w text =
      .running ⟨line ++ text, (echo sys shown w text).1⟩ (echo sys shown w text).2 := by
  induction text generalizing line shown w with
  | nil => rw [List.append_nil]; rfl
  | cons c text ih =>
    rw [List.forall_mem_cons] at hplain
    obtain ⟨⟨h0, henter, herase⟩, hplain⟩ := hplain
    rw [List.length_cons] at hroom
    have hlt : line.length < maxCommandLen - 1 := by omega
    rw [LineShell.onKeys, LineShell.onKey, if_neg h0, if_neg henter, if_neg herase,
      LineShell.insert, if_pos hlt, if_pos hlt, echo, List.append_cons line c text]
    refine ih hplain ?_ _
    rw [List.length_append, List.length_singleton]
    dsimp only
    omega

theorem loop_append (w : ω) (front back : List (List Byte)) :
    LineShell.loop sys l w (front ++ back) =
      (LineShell.loop sys l w front).bind fun l w => LineShell.loop sys l w back := by
  induction front generalizing l w with
  | nil => rfl
  | cons keys front ih =>
    rw [List.cons_append, LineShell.loop, LineShell.loop, Outcome.bind_assoc]
    congr
    funext l w
    exact ih _

/-- So are those of several reads. -/
theorem loop_text {reads : List (List Byte)}
    (hplain : ∀ c ∈ reads.flatten, c ≠ 0 ∧ c ≠ 0x0A ∧ c ≠ 0x08)
    (hroom : line.length + reads.flatten.length < maxCommandLen) (w : ω) :
    LineShell.loop sys ⟨line, shown⟩ w reads =
      .running ⟨line ++ reads.flatten, (echoReads sys shown w reads).1⟩
        (echoReads sys shown w reads).2 := by
  induction reads generalizing line shown w with
  | nil => rw [List.flatten_nil, List.append_nil]; rfl
  | cons text reads ih =>
    rw [List.flatten_cons] at hplain hroom ⊢
    rw [List.length_append] at hroom
    rw [LineShell.loop, onKeys_text sys (fun c hc => hplain c (List.mem_append_left _ hc))
      (by omega), echoReads, Outcome.bind, ← List.append_assoc]
    refine ih (fun c hc => hplain c (List.mem_append_right _ hc)) ?_ _
    rw [List.length_append]
    omega

theorem onKeys_append (w : ω) (front back : List Byte) :
    LineShell.onKeys sys l w (front ++ back) =
      (LineShell.onKeys sys l w front).bind fun l w => LineShell.onKeys sys l w back := by
  induction front generalizing l w with
  | nil => rfl
  | cons c front ih =>
    rw [List.cons_append, LineShell.onKeys, LineShell.onKeys, Outcome.bind_assoc]
    congr
    funext l w
    exact ih _

theorem echo_append (w : ω) (front back : List Byte) : echo sys shown w (front ++ back) =
    echo sys (echo sys shown w front).1 (echo sys shown w front).2 back := by
  induction front generalizing shown w with
  | nil => rfl
  | cons c front ih => exact ih _

theorem external_bind (h : ¬TooLong name) (w : ω) (argv : List (List Byte)) :
    ((external sys true w argv name).bind fun shown w =>
        .running ⟨[], shown⟩ (if shown then sys.print w prompt else w)) =
      startProgram sys w argv name := by
  rw [external, startProgram]
  dsimp only
  rw [if_neg h]
  split <;> rfl

theorem NamesProgram.wordsUpTo_eq (h : NamesProgram line name) :
    wordsUpTo 0x20 maxArguments line = words 0x20 line := by
  refine ((wordsUpTo_eq_take_iff 31 line).mpr (h.room.imp Nat.le_of_lt_succ id)).trans ?_
  exact List.take_of_length_le (h.room.elim Nat.le_of_lt fun hfull => hfull.1.le)

/-- A line that is entered has its program started. -/
theorem enter_program (h : NamesProgram line name) (w : ω) :
    LineShell.onKeys sys ⟨line, shown⟩ w [0x0A] =
      startProgram sys (echo sys shown w [0x0A]).2 (words 0x20 line) name := by
  have hwords := h.wordsUpTo_eq
  obtain ⟨args, hargs⟩ := List.head?_eq_some_iff.mp h.first
  have hname : name ∈ wordsUpTo 0x20 maxArguments line := by
    rw [hwords, hargs]
    exact List.mem_cons_self
  have h0 : 0 ∉ name := fun hmem =>
    (h.plain 0 ((isInfix_of_mem_wordsUpTo hname).subset hmem)).1 rfl
  rw [LineShell.onKeys, LineShell.onKey, if_neg (by decide), if_pos rfl, LineShell.enter, hwords,
    hargs, command_external sys true _ args h0 h.program, external_bind sys h.fits, echo, echo]
  exact Outcome.bind_running _

theorem stringBytes_le {strings : List (List Byte)} {n : Nat} (h : ∀ s ∈ strings, s.length < n) :
    stringBytes strings ≤ strings.length * n := by
  induction strings with
  | nil => exact Nat.zero_le _
  | cons s strings ih =>
    rw [List.forall_mem_cons] at h
    rw [stringBytes_cons, List.length_cons, Nat.succ_mul, Nat.add_comm]
    exact Nat.add_le_add (ih h.2) h.1

/-- `Spawn` keeps to its buffers for the words of a line, and delivers them if there is memory. -/
theorem words_delivered {st : SpawnState} {path : UserString} (hpath : path.chars.length < 256)
    {argv : List (List Byte)} (hlen : argv.length ≤ 32)
    (hargv : ∀ s ∈ argv, 0#8 ∉ s ∧ s.length < 256) (harray : st.array = true)
    (hcopies : ∀ i, st.copies i ≠ none) :
    Delivers argv.length (userStrings argv) (spawn st path argv.length (userStrings argv)) := by
  have hmin : (min (argv.length : Int) 32).toNat = argv.length := by omega
  have hat (i : Nat) (hi : i < argv.length) : ∃ s, userStrings argv i = some s ∧
      s.chars = argv[i] ∧ s.chars.length < 256 := by
    obtain ⟨h0, hshort⟩ := hargv argv[i] (List.getElem_mem hi)
    refine ⟨⟨argv[i], h0⟩, ?_, rfl, hshort⟩
    rw [userStrings, List.getElem?_eq_getElem hi]
    exact dif_neg (mt List.contains_iff_mem.mp h0)
  have hrows : (copyRows (userStrings argv) (min (argv.length : Int) 32).toNat
      st.argvBuffer).isSome := by
    rw [copyRows_isSome, hmin]
    intro i hi s hs
    obtain ⟨t, ht, -, hshort⟩ := hat i hi
    obtain rfl := Option.some.inj (ht.symm.trans hs)
    omega
  obtain ⟨T, hT⟩ := Option.isSome_iff_exists.mp hrows
  have hchars (i : Nat) (hi : i < argv.length) : (charsAt (userStrings argv) i).length < 256 := by
    obtain ⟨t, ht, -, hshort⟩ := hat i hi
    rw [charsAt, ht]
    exact hshort
  rw [spawn_eq hpath, hT]
  dsimp only
  cases hloads : st.loads path.chars with
  | false => exact trivial
  | true =>
    rw [if_neg (by simp), process_delivers_iff hT, hmin]
    refine ⟨fun i hi => ?_, fun i hi => Or.inl (hchars i (by omega)), fun _ => harray,
      fun i _ => hcopies i, ?_⟩
    · obtain ⟨t, ht, -⟩ := hat i hi
      rw [ht]
      exact Option.some_ne_none t
    · have hbytes : stringBytes ((List.range argv.length).map (charsAt (userStrings argv))) ≤
          argv.length * 256 := by
        refine (@stringBytes_le _ 256 fun s hs => ?_).trans_eq (by simp)
        obtain ⟨i, hi, rfl⟩ := List.mem_map.mp hs
        exact hchars i (List.mem_range.mp hi)
      rw [stackBytes, userStackSize, List.length_map, List.length_range]
      omega

/-- The words of a line end before their rows do. -/
theorem NamesProgram.words_short (h : NamesProgram line name) :
    (words 0x20 line).length ≤ 32 ∧ ∀ s ∈ words 0x20 line, 0#8 ∉ s ∧ s.length < 256 := by
  have hshort := h.short
  rw [maxCommandLen] at hshort
  refine ⟨h.room.elim Nat.le_of_lt fun hfull => hfull.1.le, fun s hs => ?_⟩
  rw [← h.wordsUpTo_eq] at hs
  have hpart := isInfix_of_mem_wordsUpTo hs
  exact ⟨fun h0 => (h.plain 0 (hpart.subset h0)).1 rfl, hpart.length_le.trans_lt hshort⟩

/-- The keys of a line and of its end, in any reads. -/
theorem loop_program (hline : NamesProgram line name) {front : List (List Byte)}
    {last : List Byte} (hreads : front.flatten ++ last = line) (w : ω) :
    LineShell.loop sys ⟨[], shown⟩ w (front ++ [last ++ [0x0A]]) =
      (startProgram sys (echo sys (echoReads sys shown w front).1
        (echoReads sys shown w front).2 (last ++ [0x0A])).2 (words 0x20 line) name).bind
          fun l w => .running l (sys.yield w) := by
  have hshort := hline.short
  have hplain := hline.plain
  rw [← hreads] at hshort hplain
  rw [List.length_append] at hshort
  rw [loop_append, loop_text sys (fun c hc => hplain c (List.mem_append_left _ hc))
    (by rw [List.length_nil]; omega), List.nil_append, Outcome.bind, LineShell.loop,
    onKeys_append, onKeys_text sys (fun c hc => hplain c (List.mem_append_right _ hc)) hshort,
    hreads, Outcome.bind, enter_program sys hline, echo_append]
  rfl

/-- A line that is typed has its program started: whatever the reads are that its keys come in, the
shell calls `Spawn` once with the words of the line, its buffer is ready for the next line, and if
there is memory the process receives these words. -/
theorem typed_command_started (hline : NamesProgram line name) (hs : Edits s ⟨[], shown⟩)
    {front : List (List Byte)} {last : List Byte} (hreads : front.flatten ++ last = line) (w : ω) :
    Outcome.Agree Edits (UserShell.loop sys s w (front ++ [last ++ [0x0A]]))
        ((startProgram sys (echo sys (echoReads sys shown w front).1
            (echoReads sys shown w front).2 (last ++ [0x0A])).2 (words 0x20 line) name).bind
          fun l w => .running l (sys.yield w)) ∧
      ∀ (st : SpawnState) (path : UserString), path.chars = ascii "/sys/bin/" ++ name →
        st.array = true → (∀ i, st.copies i ≠ none) →
        Delivers (words 0x20 line).length (userStrings (words 0x20 line))
          (spawn st path (words 0x20 line).length (userStrings (words 0x20 line))) := by
  constructor
  · rw [← loop_program sys hline hreads]
    exact loop_agree sys hs w _
  · intro st path hpath harray hcopies
    obtain ⟨hlen, hargv⟩ := hline.words_short
    refine words_delivered ?_ hlen hargv harray hcopies
    have hfits := hline.fits
    rw [TooLong, pathSize] at hfits
    rw [hpath]
    omega

/-- The line `cp a b` comes in three reads, of which one is empty. -/
theorem typed_command_started_cp : Outcome.Agree Edits
      (UserShell.loop recordingCalls UserShell.create ([], []) [ascii "cp ", [], ascii "a b\n"])
      (.running ⟨[], false⟩ (ascii "Sylphia:/$ cp a b\n",
        [[ascii "/sys/bin/cp", ascii "cp", ascii "a", ascii "b"]])) ∧
    Delivers 3 (userStrings [ascii "cp", ascii "a", ascii "b"])
      (spawn loadingState ⟨ascii "/sys/bin/cp", by decide⟩ 3
        (userStrings [ascii "cp", ascii "a", ascii "b"])) := by
  have hline : NamesProgram (ascii "cp a b") (ascii "cp") := by decide +kernel
  obtain ⟨hagree, hdelivers⟩ := typed_command_started recordingCalls hline (.clear false)
    (show [ascii "cp ", []].flatten ++ ascii "a b" = ascii "cp a b" by decide) ([], [])
  have hwords : words 0x20 (ascii "cp a b") = [ascii "cp", ascii "a", ascii "b"] := by
    decide +kernel
  rw [hwords] at hagree hdelivers
  exact ⟨hagree, hdelivers loadingState ⟨ascii "/sys/bin/cp", by decide⟩ rfl rfl
    fun _ => Option.some_ne_none _⟩

end Typed

end Sylphia.Shell
