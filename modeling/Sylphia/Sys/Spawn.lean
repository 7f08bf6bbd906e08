import Sylphia.Core.Terminated

/-!
# The system call Spawn

The arguments of a new process are copied three times: by the system call to rows of 256 bytes
of one table, by `CreateProcess` to memory of the task, and by `AppTaskEntry` to the user stack.
A string that is longer than its row goes on in the next one, where the next argument is
written over it.
-/

namespace Sylphia

open Bytes

/-- A string that the caller passes, without the NUL at its end. -/
structure UserString where
  chars : List Byte
  noNul : 0#8 ∉ chars

/-- More characters than `strlen` can count. -/
def stringBound : Nat := 2 ^ 31

/-- What a call finds. -/
structure SpawnState where
  /-- `argv_buffer`, as the last call has left it. -/
  argvBuffer : Buffer
  /-- The memory from address 0 on. -/
  zero : Buffer
  /-- Whether `CreateProcess` makes a task and loads the program of this name. -/
  loads : List Byte → Bool
  /-- Whether `Allocate` has memory for `task->argv`. -/
  array : Bool
  /-- What `Allocate` gives for each of the strings, `none` for `nullptr`. -/
  copies : Nat → Option Buffer
  /-- The memory of the new process, by address. -/
  memory : Buffer

/-- How a call ends: it returns 0, or the process is entered with `argc` and `argv_ptr`, or
bytes are written that belong to someone else. -/
inductive SpawnResult
  | failed
  | started (argc : Int) (argvPtr : Nat) (memory : Buffer)
  | overrun

/-- The loop over the first `n` arguments in the system call; `argv_buffer` has 32 rows. -/
def copyRows (argv : Nat → Option UserString) : Nat → Buffer → Option Buffer
  | 0, table => some table
  | n + 1, table =>
    match copyRows argv n table with
    | none => none
    | some table =>
      match argv n with
      | none => some table
      | some s =>
        if 256 * n + s.chars.length < 32 * 256 then some (strcpy table (256 * n) s.chars) else none

/-- The string at `kernel_argv[i]`, which is `nullptr` when the caller's is. -/
def kernelString (zero table : Buffer) (argv : Nat → Option UserString) (i : Nat) : List Byte :=
  match argv i with
  | some _ => cstring table (256 * i) stringBound
  | none => cstring zero 0 stringBound

/-- The loop over the first `n` arguments in `CreateProcess`. -/
def copyStrings (copies : Nat → Option Buffer) (string : Nat → List Byte) :
    Nat → Option (List Buffer)
  | 0 => some []
  | n + 1 =>
    match copyStrings copies string n, copies n with
    | some argv, some buf => some (argv ++ [strcpy buf 0 (string n)])
    | _, _ => none

/-- `kUserStackTop`. -/
def userStackTop : Nat := 0x70000000

/-- `kUserStackSize`. -/
def userStackSize : Nat := 64 * 1024

/-- The string at the start of a buffer. -/
def stringOf (buf : Buffer) : List Byte := cstring buf 0 stringBound

/-- The first loop of `AppTaskEntry`: the strings go to the user stack. -/
def pushStrings : List Buffer → Nat → Buffer → List Nat × Nat × Buffer
  | [], sp, memory => ([], sp, memory)
  | arg :: args, sp, memory =>
    let s := stringOf arg
    let sp := sp - (s.length + 1)
    let (ptrs, sp', memory) := pushStrings args sp (strcpy memory sp s)
    (sp :: ptrs, sp', memory)

/-- The second loop of `AppTaskEntry`: the pointers follow, the last one first. -/
def pushPointers : List Nat → Nat → Buffer → Nat × Buffer
  | [], sp, memory => (sp, memory)
  | ptr :: ptrs, sp, memory =>
    let (sp, memory) := pushPointers ptrs sp memory
    (sp - 8, splice memory (sp - 8) (toLE 8 ptr))

/-- `AppTaskEntry`, up to `EnterUserMode`. -/
def appTaskEntry (memory : Buffer) (argc : Int) (args : List Buffer) : SpawnResult :=
  let (ptrs, sp, memory) := pushStrings args userStackTop memory
  let sp := sp - sp % 16 - 8
  let (sp, memory) := pushPointers ptrs sp (splice memory sp (toLE 8 0))
  if sp < userStackTop - userStackSize then .overrun else .started argc sp memory

/-- The system call `Spawn`, and the start of the process that it makes. -/
def spawn (st : SpawnState) (path : UserString) (argc : Int) (argv : Nat → Option UserString) :
    SpawnResult :=
  if 256 ≤ path.chars.length then .overrun
  else
    let argc := if argc > 32 then 32 else argc
    match copyRows argv argc.toNat st.argvBuffer with
    | none => .overrun
    | some table =>
      if !st.loads (path.chars.take 255) then .failed
      else if argc > 0 then
        if !st.array then .overrun
        else
          match copyStrings st.copies (kernelString st.zero table argv) argc.toNat with
          | none => .overrun
          | some args => appTaskEntry st.memory argc args
      else appTaskEntry st.memory argc []

/-! ## What the process receives -/

/-- `argv[i]` of the process. -/
def argument (memory : Buffer) (argvPtr i : Nat) : List Byte :=
  cstring memory (ofLE (slice memory (argvPtr + 8 * i) 8)) stringBound

/-- The call returns 0, or the process receives the caller's strings, at most 32 of them, and a
null pointer behind them. -/
def Delivers (argc : Int) (argv : Nat → Option UserString) : SpawnResult → Prop
  | .failed => True
  | .overrun => False
  | .started argc' argvPtr memory =>
    argc' = min argc 32 ∧
      (∀ i < (min argc 32).toNat,
        (argv i).map UserString.chars = some (argument memory argvPtr i)) ∧
      ofLE (slice memory (argvPtr + 8 * (min argc 32).toNat) 8) = 0

/-- The bytes of the strings with their NULs. -/
def stringBytes (strings : List (List Byte)) : Nat := (strings.map fun s => s.length + 1).sum

/-- The bytes of the strings, filled up to a multiple of 16, and of the pointers. -/
def stackBytes (strings : List (List Byte)) : Nat :=
  stringBytes strings + (16 - stringBytes strings % 16) % 16 + 8 * (strings.length + 1)

section Rows

variable {argv : Nat → Option UserString} {n i : Nat} {table T : Buffer} {s : UserString}

/-- The rows are copied as long as no string goes beyond the table. -/
theorem copyRows_isSome : (copyRows argv n table).isSome ↔
    ∀ i < n, ∀ s, argv i = some s → 256 * i + s.chars.length < 32 * 256 := by
  induction n with
  | zero => simp [copyRows]
  | succ n ih =>
    rw [copyRows]
    cases hrows : copyRows argv n table with
    | none =>
      rw [hrows] at ih
      refine ⟨nofun, fun h => ?_⟩
      exact absurd (ih.mpr fun i hi => h i (by omega)) (by simp)
    | some T =>
      rw [hrows] at ih
      have hfits := ih.mp rfl
      dsimp only
      cases hs : argv n with
      | none =>
        refine ⟨fun _ i hi s hi' => ?_, fun _ => rfl⟩
        rcases Nat.lt_succ_iff_lt_or_eq.mp hi with hlt | rfl
        · exact hfits i hlt s hi'
        · rw [hs] at hi'
          cases hi'
      | some s =>
        dsimp only
        split_ifs with hlast
        · refine ⟨fun _ i hi t hi' => ?_, fun _ => rfl⟩
          rcases Nat.lt_succ_iff_lt_or_eq.mp hi with hlt | rfl
          · exact hfits i hlt t hi'
          · rw [hs] at hi'
            obtain rfl := Option.some.inj hi'
            exact hlast
        · exact ⟨nofun, fun h => absurd (h n (by omega) s hs) hlast⟩

/-- A string is in its row as far as the row goes, and the last one beyond it. -/
theorem copyRows_bytes (h : copyRows argv n table = some T) (hi : i < n) (hs : argv i = some s) :
    (∀ k (hk : k < s.chars.length), k < 256 ∨ i + 1 = n → T (256 * i + k) = s.chars[k]) ∧
      (s.chars.length < 256 ∨ i + 1 = n → T (256 * i + s.chars.length) = 0) := by
  induction n generalizing T with
  | zero => exact absurd hi (Nat.not_lt_zero _)
  | succ n ih =>
    rw [copyRows] at h
    cases hrows : copyRows argv n table with
    | none =>
      rw [hrows] at h
      cases h
    | some T₀ =>
      rw [hrows] at h
      dsimp only at h
      rcases Nat.lt_succ_iff_lt_or_eq.mp hi with hlt | rfl
      · obtain ⟨hbytes, hended⟩ := ih hrows hlt
        -- What is written for the last argument is behind the row.
        have hbefore : ∀ a < 256 * (i + 1), T a = T₀ a := by
          intro a ha
          cases hn : argv n with
          | none =>
            rw [hn] at h
            rw [← Option.some.inj h]
          | some t =>
            rw [hn] at h
            dsimp only at h
            split_ifs at h
            rw [← Option.some.inj h]
            exact strcpy_of_lt (by omega)
        refine ⟨fun k hk hrow => ?_, fun hrow => ?_⟩
        · rw [hbefore _ (by omega)]
          exact hbytes k hk (by omega)
        · rw [hbefore _ (by omega)]
          exact hended (by omega)
      · rw [hs] at h
        dsimp only at h
        split_ifs at h
        rw [← Option.some.inj h]
        have hstring := stringAt_strcpy T₀ (256 * i) s.noNul
        exact ⟨fun k hk _ => hstring.bytes k hk, fun _ => hstring.ended⟩

/-- The rows hold the strings exactly when each of them ends in its row, save for the last, or
goes on in the next row as the next one. -/
theorem rows_iff {string : Nat → UserString} (h : copyRows argv n table = some T)
    (hargv : ∀ i < n, argv i = some (string i)) :
    (∀ i < n, cstring T (256 * i) stringBound = (string i).chars) ↔
      ∀ i, i + 1 < n → (string i).chars.length < 256 ∨
        (string i).chars.drop 256 = (string (i + 1)).chars := by
  have hfits (i : Nat) (hi : i < n) : (string i).chars.length < 32 * 256 := by
    have := copyRows_isSome.mp (Option.isSome_of_eq_some h) i hi _ (hargv i hi)
    omega
  have hlong {i : Nat} (hlen : ¬(string i).chars.length < 256) :
      ((string i).chars.take 256).length = 256 := by
    rw [List.length_take]
    omega
  have hrow {i : Nat} (hi : i < n) (k : Nat) (hk : k < ((string i).chars.take 256).length) :
      T (256 * i + k) = ((string i).chars.take 256)[k] := by
    rw [List.length_take] at hk
    rw [List.getElem_take]
    exact (copyRows_bytes h hi (hargv i hi)).1 k (by omega) (Or.inl (by omega))
  have hno (i : Nat) : 0#8 ∉ (string i).chars.take 256 := fun hmem =>
    (string i).noNul (List.mem_of_mem_take hmem)
  constructor
  · intro hread i hi
    by_cases hlen : (string i).chars.length < 256
    · exact Or.inl hlen
    · refine Or.inr ?_
      have hnext : StringAt T (256 * (i + 1)) (string (i + 1)).chars :=
        stringAt_of_cstring (hread (i + 1) hi) ((hfits (i + 1) hi).trans (by decide))
      have hboth : StringAt T (256 * i) ((string i).chars.take 256 ++ (string (i + 1)).chars) := by
        refine StringAt.append ?_ (hrow (by omega)) (hno i)
        rw [hlong hlen]
        exact hnext
      have hlength : ((string i).chars.take 256 ++ (string (i + 1)).chars).length ≤
          stringBound := by
        have := hfits (i + 1) hi
        rw [List.length_append, hlong hlen, stringBound]
        omega
      have heq := (hread i (by omega)).symm.trans (hboth.cstring_eq hlength)
      nth_rewrite 1 [← List.take_append_drop 256 (string i).chars] at heq
      exact List.append_cancel_left heq
  · intro hchain i hi
    have hstring : ∀ m i, i + m + 1 = n → StringAt T (256 * i) (string i).chars := by
      intro m
      induction m with
      | zero =>
        intro i hi
        obtain ⟨hbytes, hended⟩ := copyRows_bytes h (by omega) (hargv i (by omega))
        exact ⟨fun k hk => hbytes k hk (Or.inr hi), hended (Or.inr hi), (string i).noNul⟩
      | succ m ih =>
        intro i hi
        by_cases hlen : (string i).chars.length < 256
        · obtain ⟨hbytes, hended⟩ := copyRows_bytes h (by omega) (hargv i (by omega))
          exact ⟨fun k hk => hbytes k hk (Or.inl (by omega)), hended (Or.inl hlen),
            (string i).noNul⟩
        · have hdrop := (hchain i (by omega)).resolve_left hlen
          rw [← List.take_append_drop 256 (string i).chars, hdrop]
          refine StringAt.append ?_ (hrow (by omega)) (hno i)
          rw [hlong hlen]
          exact ih (i + 1) (by omega)
    exact (hstring (n - 1 - i) i (by omega)).cstring_eq ((hfits i hi).le.trans (by decide))

end Rows

section Strings

variable {copies : Nat → Option Buffer} {string : Nat → List Byte} {n : Nat}

/-- A string at an address ends before the first NUL. -/
theorem kernelString_string (zero table : Buffer) (argv : Nat → Option UserString) (i : Nat) :
    0#8 ∉ kernelString zero table argv i ∧
      (kernelString zero table argv i).length ≤ stringBound := by
  rw [kernelString]
  cases argv i with
  | none => exact ⟨zero_not_mem_cstring _ _ _, length_cstring_le _ _ _⟩
  | some s => exact ⟨zero_not_mem_cstring _ _ _, length_cstring_le _ _ _⟩

/-- `CreateProcess` copies the strings unless there is no memory for one of them. -/
theorem copyStrings_cases (hstring : ∀ i, 0#8 ∉ string i ∧ (string i).length ≤ stringBound) :
    (copyStrings copies string n = none ∧ ∃ i < n, copies i = none) ∨
      ∃ args, copyStrings copies string n = some args ∧ (∀ i < n, copies i ≠ none) ∧
        args.map stringOf = (List.range n).map string := by
  induction n with
  | zero => exact Or.inr ⟨[], rfl, nofun, rfl⟩
  | succ n ih =>
    rw [copyStrings]
    rcases ih with ⟨heq, i, hi, hnull⟩ | ⟨args, heq, hsome, hargs⟩
    · rw [heq]
      exact Or.inl ⟨rfl, i, by omega, hnull⟩
    · rw [heq]
      cases hbuf : copies n with
      | none => exact Or.inl ⟨rfl, n, by omega, hbuf⟩
      | some buf =>
        refine Or.inr ⟨_, rfl, fun i hi => ?_, ?_⟩
        · rcases Nat.lt_succ_iff_lt_or_eq.mp hi with hlt | rfl
          · exact hsome i hlt
          · rw [hbuf]
            simp
        · rw [List.map_append, hargs, List.range_succ, List.map_append, List.map_singleton,
            List.map_singleton, stringOf,
            (stringAt_strcpy buf 0 (hstring n).1).cstring_eq (hstring n).2]

end Strings

/-! ## The user stack -/

section Stack

variable {args : List Buffer} {ptrs : List Nat} {sp : Nat} {memory : Buffer}

theorem stringBytes_cons (s : List Byte) (strings : List (List Byte)) :
    stringBytes (s :: strings) = s.length + 1 + stringBytes strings := rfl

theorem pushStrings_sp (args : List Buffer) (sp : Nat) (memory : Buffer) :
    (pushStrings args sp memory).2.1 = sp - stringBytes (args.map stringOf) := by
  induction args generalizing sp memory with
  | nil => rfl
  | cons arg args ih =>
    rw [pushStrings]
    dsimp only
    rw [ih, Nat.sub_sub, List.map_cons, stringBytes_cons]

theorem pushStrings_length (args : List Buffer) (sp : Nat) (memory : Buffer) :
    (pushStrings args sp memory).1.length = args.length := by
  induction args generalizing sp memory with
  | nil => rfl
  | cons arg args ih =>
    rw [pushStrings]
    exact congrArg Nat.succ (ih _ _)

/-- The strings lie one below the other, and nothing above them changes. -/
theorem pushStrings_spec (hsp : stringBytes (args.map stringOf) ≤ sp) :
    (∀ a, sp ≤ a → (pushStrings args sp memory).2.2 a = memory a) ∧
      ∀ i (hi : i < (pushStrings args sp memory).1.length) (hi' : i < args.length),
        StringAt (pushStrings args sp memory).2.2 (pushStrings args sp memory).1[i]
        (stringOf args[i]) ∧
          sp - stringBytes (args.map stringOf) ≤ (pushStrings args sp memory).1[i] ∧
          (pushStrings args sp memory).1[i] < sp := by
  induction args generalizing sp memory with
  | nil => exact ⟨fun _ _ => rfl, fun i _ hi' => absurd hi' (Nat.not_lt_zero i)⟩
  | cons arg args ih =>
    rw [List.map_cons, stringBytes_cons] at hsp ⊢
    rw [pushStrings]
    obtain ⟨p, hp⟩ : ∃ p, p = sp - ((stringOf arg).length + 1) := ⟨_, rfl⟩
    obtain ⟨hframe, hstrings⟩ := @ih p (strcpy memory p (stringOf arg)) (by omega)
    dsimp only
    rw [← hp]
    refine ⟨fun a ha => ?_, fun i hi hi' => ?_⟩
    · exact (hframe a (by omega)).trans (strcpy_of_gt (by omega))
    · cases i with
      | zero =>
        refine ⟨?_, by rw [List.getElem_cons_zero]; omega, by rw [List.getElem_cons_zero]; omega⟩
        exact (stringAt_strcpy memory p (zero_not_mem_cstring arg 0 stringBound)).congr
          fun k _ => hframe _ (Nat.le_add_right p k)
      | succ i =>
        obtain ⟨hstring, hlow, hhigh⟩ := hstrings i (by simpa using hi) (by simpa using hi')
        rw [List.getElem_cons_succ]
        exact ⟨hstring, by omega, by omega⟩

theorem pushPointers_sp (ptrs : List Nat) (sp : Nat) (memory : Buffer) :
    (pushPointers ptrs sp memory).1 = sp - 8 * ptrs.length := by
  induction ptrs with
  | nil => rfl
  | cons ptr ptrs ih =>
    rw [pushPointers]
    dsimp only
    rw [ih, List.length_cons]
    omega

/-- The pointers lie below the stack pointer, in order. -/
theorem pushPointers_spec (hsp : 8 * ptrs.length ≤ sp) :
    (∀ a, sp ≤ a → (pushPointers ptrs sp memory).2 a = memory a) ∧
      ∀ i (hi : i < ptrs.length),
        slice (pushPointers ptrs sp memory).2 ((pushPointers ptrs sp memory).1 + 8 * i) 8 =
          toLE 8 ptrs[i] := by
  induction ptrs with
  | nil => exact ⟨fun _ _ => rfl, fun i hi => absurd hi (Nat.not_lt_zero i)⟩
  | cons ptr ptrs ih =>
    rw [List.length_cons] at hsp
    obtain ⟨hframe, hslices⟩ := ih (by omega)
    have hlow := pushPointers_sp ptrs sp memory
    rw [pushPointers]
    dsimp only
    refine ⟨fun a ha => ?_, fun i hi => ?_⟩
    · rw [splice_of_ge (by rw [length_toLE]; omega)]
      exact hframe a ha
    · cases i with
      | zero =>
        have hself := slice_splice_self (pushPointers ptrs sp memory).2
          ((pushPointers ptrs sp memory).1 - 8) (toLE 8 ptr)
        rw [length_toLE] at hself
        exact hself
      | succ i =>
        rw [slice_splice_of_disjoint (Or.inr (by rw [length_toLE]; omega)), List.getElem_cons_succ,
          ← hslices i (by simpa using hi)]
        congr 1
        omega

/-- What `EnterUserMode` is given for the stack, and the memory then. -/
structure UserEntry where
  sp : Nat
  argvPtr : Nat
  memory : Buffer

/-- The stack that `AppTaskEntry` builds. -/
def userEntry (memory : Buffer) (args : List Buffer) : UserEntry :=
  let (ptrs, sp, memory) := pushStrings args userStackTop memory
  let sp := sp - sp % 16 - 8
  let (sp, memory) := pushPointers ptrs sp (splice memory sp (toLE 8 0))
  let argvPtr := sp
  ⟨sp, argvPtr, memory⟩

theorem appTaskEntry_eq (memory : Buffer) (argc : Int) (args : List Buffer) :
    appTaskEntry memory argc args =
      if (userEntry memory args).sp < userStackTop - userStackSize then .overrun
      else .started argc (userEntry memory args).argvPtr (userEntry memory args).memory := rfl

theorem userEntry_sp (memory : Buffer) (args : List Buffer) :
    (userEntry memory args).sp = userStackTop - stringBytes (args.map stringOf) -
      (userStackTop - stringBytes (args.map stringOf)) % 16 - 8 - 8 * args.length := by
  rw [userEntry]
  dsimp only
  rw [pushPointers_sp, pushStrings_length, pushStrings_sp]

/-- The stack has room exactly when it ends above its base. -/
theorem room_iff (memory : Buffer) (args : List Buffer) :
    stackBytes (args.map stringOf) ≤ userStackSize ↔
      userStackTop - userStackSize ≤ (userEntry memory args).sp := by
  rw [userEntry_sp, stackBytes, List.length_map, userStackTop, userStackSize]
  omega

/-- With room for them, the strings, the pointers to them and the null pointer are in memory. -/
theorem userEntry_spec (hroom : stackBytes (args.map stringOf) ≤ userStackSize) :
    (∀ i (hi : i < args.length) (hi' : i < (pushStrings args userStackTop memory).1.length),
      StringAt (userEntry memory args).memory (pushStrings args userStackTop memory).1[i]
          (stringOf args[i]) ∧
        ofLE (slice (userEntry memory args).memory ((userEntry memory args).argvPtr + 8 * i) 8) =
          (pushStrings args userStackTop memory).1[i]) ∧
      ofLE (slice (userEntry memory args).memory
        ((userEntry memory args).argvPtr + 8 * args.length) 8) = 0 := by
  have hsp := pushStrings_sp args userStackTop memory
  have hlen := pushStrings_length args userStackTop memory
  have hspec := @pushStrings_spec args userStackTop memory
  rw [stackBytes, List.length_map, userStackSize] at hroom
  rw [userEntry]
  generalize pushStrings args userStackTop memory = pushed at hsp hlen hspec ⊢
  obtain ⟨ptrs, sp, memory₁⟩ := pushed
  dsimp only at hsp hlen hspec ⊢
  have hsp₂ := pushPointers_sp ptrs (sp - sp % 16 - 8)
    (splice memory₁ (sp - sp % 16 - 8) (toLE 8 0))
  rw [hlen] at hsp₂
  rw [userStackTop] at hsp hspec
  obtain ⟨-, hstrings⟩ := hspec (by omega)
  obtain ⟨hframe, hslices⟩ := @pushPointers_spec ptrs (sp - sp % 16 - 8)
    (splice memory₁ (sp - sp % 16 - 8) (toLE 8 0)) (by omega)
  refine ⟨fun i hi hi' => ?_, ?_⟩
  · obtain ⟨hstring, hge, hlt⟩ := hstrings i hi' hi
    refine ⟨hstring.congr fun k _ => ?_, ?_⟩
    · rw [hframe _ (by omega), splice_of_ge (by rw [length_toLE]; omega)]
    · rw [hslices i hi', ofLE_toLE, Nat.mod_eq_of_lt (hlt.trans (by decide))]
  · have hself := slice_splice_self memory₁ (sp - sp % 16 - 8) (toLE 8 0)
    rw [length_toLE] at hself
    rw [hsp₂, show sp - sp % 16 - 8 - 8 * args.length + 8 * args.length = sp - sp % 16 - 8 by omega,
      slice_congr fun k _ => hframe _ (by omega), hself, ofLE_toLE, Nat.zero_mod]

/-- `AppTaskEntry` keeps to the user stack exactly when the arguments have room there, and then
the process receives them. -/
theorem appTaskEntry_cases (memory : Buffer) (argc : Int) (args : List Buffer) :
    (userStackSize < stackBytes (args.map stringOf) ∧ appTaskEntry memory argc args = .overrun) ∨
      stackBytes (args.map stringOf) ≤ userStackSize ∧
        ∃ sp memory', appTaskEntry memory argc args = .started argc sp memory' ∧
          (∀ i (hi : i < args.length), argument memory' sp i = stringOf args[i]) ∧
          ofLE (slice memory' (sp + 8 * args.length) 8) = 0 := by
  rw [appTaskEntry_eq]
  by_cases hroom : stackBytes (args.map stringOf) ≤ userStackSize
  · obtain ⟨hstrings, hnull⟩ := @userEntry_spec args memory hroom
    refine Or.inr ⟨hroom, _, _, if_neg (Nat.not_lt.mpr ((room_iff memory args).mp hroom)),
      fun i hi => ?_, hnull⟩
    obtain ⟨hstring, hptr⟩ := hstrings i hi (by rwa [pushStrings_length])
    rw [argument, hptr]
    exact hstring.cstring_eq (length_cstring_le _ _ _)
  · exact Or.inl ⟨Nat.not_le.mp hroom, if_pos (Nat.not_le.mp (mt (room_iff memory args).mpr hroom))⟩

end Stack

/-! ## When the strings arrive -/

instance : Inhabited UserString := ⟨⟨[], by simp⟩⟩

/-- The characters of an argument, none for `nullptr`. -/
def charsAt (argv : Nat → Option UserString) (i : Nat) : List Byte :=
  ((argv i).map UserString.chars).getD []

/-- What the first `n` arguments need to get to a process: none of them is null, each but the
last ends in its row or goes on as the next one, and there is memory for them. -/
structure ArgvFits (st : SpawnState) (argv : Nat → Option UserString) (n : Nat) : Prop where
  given : ∀ i < n, argv i ≠ none
  rows : ∀ i, i + 1 < n → (charsAt argv i).length < 256 ∨
    (charsAt argv i).drop 256 = charsAt argv (i + 1)
  array : 0 < n → st.array = true
  copies : ∀ i < n, st.copies i ≠ none
  stack : stackBytes ((List.range n).map (charsAt argv)) ≤ userStackSize

/-- What a call needs to keep to its buffers, and to deliver the arguments if the program is
loaded. -/
structure SpawnFits (st : SpawnState) (path : UserString) (argc : Int)
    (argv : Nat → Option UserString) : Prop where
  name : path.chars.length < 256
  table : ∀ i < (min argc 32).toNat, ∀ s, argv i = some s → 256 * i + s.chars.length < 32 * 256
  process : st.loads path.chars = true → ArgvFits st argv (min argc 32).toNat

section Delivery

variable {st : SpawnState} {argv : Nat → Option UserString} {n : Nat} {table T : Buffer}

/-- `CreateProcess` is given the caller's strings. -/
theorem kernelStrings_iff (zero : Buffer) (h : copyRows argv n table = some T) :
    (∀ i < n, (argv i).map UserString.chars = some (kernelString zero T argv i)) ↔
      (∀ i < n, argv i ≠ none) ∧ ∀ i, i + 1 < n → (charsAt argv i).length < 256 ∨
        (charsAt argv i).drop 256 = charsAt argv (i + 1) := by
  by_cases hgiven : ∀ i < n, argv i ≠ none
  · have hargv (i : Nat) (hi : i < n) : argv i = some ((argv i).getD default) := by
      obtain ⟨s, hs⟩ := Option.ne_none_iff_exists'.mp (hgiven i hi)
      rw [hs, Option.getD_some]
    have hchars (i : Nat) (hi : i < n) : charsAt argv i = ((argv i).getD default).chars := by
      rw [charsAt, hargv i hi]
      rfl
    have hrows := rows_iff h hargv
    have hread (i : Nat) (hi : i < n) : (argv i).map UserString.chars =
        some (kernelString zero T argv i) ↔
          cstring T (256 * i) stringBound = ((argv i).getD default).chars := by
      rw [kernelString, hargv i hi]
      exact Option.some_inj.trans eq_comm
    rw [forall₂_congr hread, hrows]
    constructor
    · intro hall
      refine ⟨hgiven, fun i hi => ?_⟩
      rw [hchars i (by omega), hchars (i + 1) hi]
      exact hall i hi
    · rintro ⟨-, hall⟩ i hi
      have := hall i hi
      rwa [hchars i (by omega), hchars (i + 1) hi] at this
  · refine ⟨fun hall => absurd (fun i hi hnone => ?_) hgiven, fun hall => absurd hall.1 hgiven⟩
    have := hall i hi
    rw [hnone] at this
    cases this

theorem kernelStrings_eq {zero : Buffer}
    (h : ∀ i < n, (argv i).map UserString.chars = some (kernelString zero T argv i)) :
    (List.range n).map (kernelString zero T argv) = (List.range n).map (charsAt argv) := by
  refine List.map_congr_left fun i hi => ?_
  rw [charsAt, h i (List.mem_range.mp hi), Option.getD_some]

/-- The process receives what `CreateProcess` was given, if that fits the stack. -/
theorem appTaskEntry_delivers_iff {argc : Int} {args : List Buffer}
    (hargs : args.map stringOf =
      (List.range (min argc 32).toNat).map (kernelString st.zero T argv)) :
    Delivers argc argv (appTaskEntry st.memory (min argc 32) args) ↔
      (∀ i < (min argc 32).toNat, (argv i).map UserString.chars =
        some (kernelString st.zero T argv i)) ∧
      stackBytes ((List.range (min argc 32).toNat).map (charsAt argv)) ≤ userStackSize := by
  have hlength : args.length = (min argc 32).toNat := by
    simpa using congrArg List.length hargs
  have hget (i : Nat) (hi : i < args.length) :
      stringOf args[i] = kernelString st.zero T argv i := by
    have hith := congrArg (·[i]?) hargs
    simpa [hi, hlength ▸ hi] using hith
  rcases appTaskEntry_cases st.memory (min argc 32) args with
    ⟨hover, heq⟩ | ⟨hroom, sp, memory, heq, harguments, hnull⟩
  · rw [heq]
    refine ⟨False.elim, fun ⟨hall, hroom⟩ => ?_⟩
    rw [hargs, kernelStrings_eq hall] at hover
    exact absurd hroom (Nat.not_le.mpr hover)
  · rw [heq]
    rw [hlength] at hnull
    constructor
    · rintro ⟨-, hall, -⟩
      have hall' : ∀ i < (min argc 32).toNat, (argv i).map UserString.chars =
          some (kernelString st.zero T argv i) := by
        intro i hi
        rw [hall i hi, harguments i (hlength ▸ hi), hget i (hlength ▸ hi)]
      rw [hargs, kernelStrings_eq hall'] at hroom
      exact ⟨hall', hroom⟩
    · rintro ⟨hall, -⟩
      refine ⟨rfl, fun i hi => ?_, hnull⟩
      rw [harguments i (hlength ▸ hi), hget i (hlength ▸ hi)]
      exact hall i hi

/-- A task that is made receives the arguments exactly when they fit. -/
theorem process_delivers_iff {argc : Int} (h : copyRows argv (min argc 32).toNat table = some T) :
    Delivers argc argv (if min argc 32 > 0 then
        if !st.array then .overrun
        else
          match copyStrings st.copies (kernelString st.zero T argv) (min argc 32).toNat with
          | none => .overrun
          | some args => appTaskEntry st.memory (min argc 32) args
      else appTaskEntry st.memory (min argc 32) []) ↔ ArgvFits st argv (min argc 32).toNat := by
  have hstrings := kernelStrings_iff st.zero h
  by_cases hpos : min argc 32 > 0
  · rw [if_pos hpos]
    cases harray : st.array with
    | false =>
      refine ⟨False.elim, fun hfits => ?_⟩
      rw [hfits.array (by omega)] at harray
      cases harray
    | true =>
      rw [if_neg (by simp)]
      rcases @copyStrings_cases st.copies _ (min argc 32).toNat (kernelString_string st.zero T argv)
        with ⟨heq, i, hi, hnull⟩ | ⟨args, heq, hcopies, hargs⟩
      · rw [heq]
        exact ⟨False.elim, fun hfits => hfits.copies i hi hnull⟩
      · rw [heq]
        dsimp only
        rw [appTaskEntry_delivers_iff hargs, hstrings]
        constructor
        · rintro ⟨⟨hgiven, hrows⟩, hroom⟩
          exact ⟨hgiven, hrows, fun _ => harray, hcopies, hroom⟩
        · intro hfits
          exact ⟨⟨hfits.given, hfits.rows⟩, hfits.stack⟩
  · have hzero : (min argc 32).toNat = 0 := by omega
    rw [if_neg hpos, appTaskEntry_delivers_iff (by rw [hzero]; rfl), hstrings]
    constructor
    · rintro ⟨⟨hgiven, hrows⟩, hroom⟩
      exact ⟨hgiven, hrows, fun hn => by omega, fun i hi => by omega, hroom⟩
    · intro hfits
      exact ⟨⟨hfits.given, hfits.rows⟩, hfits.stack⟩

end Delivery

section Spawn

variable {st : SpawnState} {path : UserString} {argc : Int} {argv : Nat → Option UserString}

/-- The call, when the path fits its buffer. -/
theorem spawn_eq (h : path.chars.length < 256) : spawn st path argc argv =
    match copyRows argv (min argc 32).toNat st.argvBuffer with
    | none => .overrun
    | some table =>
      if !st.loads path.chars then .failed
      else if min argc 32 > 0 then
        if !st.array then .overrun
        else
          match copyStrings st.copies (kernelString st.zero table argv) (min argc 32).toNat with
          | none => .overrun
          | some args => appTaskEntry st.memory (min argc 32) args
      else appTaskEntry st.memory (min argc 32) [] := by
  have hargc : (if argc > 32 then 32 else argc) = min argc 32 := by
    split_ifs <;> omega
  rw [spawn, if_neg (Nat.not_le.mpr h), hargc, List.take_of_length_le (by omega)]

/-- `Spawn` delivers the arguments exactly when they fit. -/
theorem spawn_delivers_iff (st : SpawnState) (path : UserString) (argc : Int)
    (argv : Nat → Option UserString) :
    Delivers argc argv (spawn st path argc argv) ↔ SpawnFits st path argc argv := by
  by_cases hpath : path.chars.length < 256
  · rw [spawn_eq hpath]
    cases hrows : copyRows argv (min argc 32).toNat st.argvBuffer with
    | none =>
      refine ⟨False.elim, fun hfits => ?_⟩
      have hsome := (@copyRows_isSome argv _ st.argvBuffer).mpr hfits.table
      rw [hrows] at hsome
      cases hsome
    | some T =>
      have htable := copyRows_isSome.mp (Option.isSome_of_eq_some hrows)
      dsimp only
      cases hloads : st.loads path.chars with
      | false =>
        refine ⟨fun _ => ⟨hpath, htable, fun h => ?_⟩, fun _ => trivial⟩
        rw [hloads] at h
        cases h
      | true =>
        rw [if_neg (by simp), process_delivers_iff hrows]
        exact ⟨fun h => ⟨hpath, htable, fun _ => h⟩, fun h => h.process hloads⟩
  · rw [spawn, if_pos (Nat.not_lt.mp hpath)]
    exact ⟨False.elim, fun hfits => absurd hfits.name hpath⟩

end Spawn

/-- A system in which every program is loaded. -/
def loadingState : SpawnState where
  argvBuffer := fun _ => 0
  zero := fun _ => 0
  loads := fun _ => true
  array := true
  copies := fun _ => some fun _ => 0
  memory := fun _ => 0

/-- As many characters as a row has. -/
def rowString : List Byte := List.replicate 256 0x41#8

/-- An argument of 256 characters, and one of one. -/
def longArgv : Nat → Option UserString
  | 0 => some ⟨rowString, by decide +kernel⟩
  | 1 => some ⟨[0x42#8], by decide⟩
  | _ => none

/-- The first argument goes on with the second. -/
theorem spawn_spills : ∃ sp memory,
    spawn loadingState ⟨[0x70#8], by decide⟩ 2 longArgv = .started 2 sp memory ∧
      argument memory sp 0 = rowString ++ [0x42#8] ∧
      ¬Delivers 2 longArgv (spawn loadingState ⟨[0x70#8], by decide⟩ 2 longArgv) := by
  obtain ⟨T, hrows, hzero, hone⟩ : ∃ T, copyRows longArgv 2 loadingState.argvBuffer = some T ∧
      kernelString loadingState.zero T longArgv 0 = rowString ++ [0x42#8] ∧
      kernelString loadingState.zero T longArgv 1 = [0x42#8] := by
    refine ⟨strcpy (strcpy (fun _ => 0) 0 rowString) 256 [0x42#8], ?_, by decide +kernel,
      by decide +kernel⟩
    have hlen : rowString.length = 256 := List.length_replicate
    simp [copyRows, longArgv, loadingState, hlen]
  rcases @copyStrings_cases loadingState.copies _ 2
    (kernelString_string loadingState.zero T longArgv) with ⟨-, i, -, hnull⟩ |
      ⟨args, hcopies, -, hargs⟩
  · cases hnull
  have hstrings : args.map stringOf = [rowString ++ [0x42#8], [0x42#8]] := by
    rw [hargs, ← hzero, ← hone]
    rfl
  have hspawn : spawn loadingState ⟨[0x70#8], by decide⟩ 2 longArgv =
      appTaskEntry loadingState.memory 2 args := by
    rw [spawn_eq (by decide), show min (2 : Int) 32 = 2 from rfl, show Int.toNat 2 = 2 from rfl,
      hrows]
    dsimp only
    rw [hcopies]
    rfl
  rw [hspawn]
  rcases appTaskEntry_cases loadingState.memory 2 args with ⟨hover, -⟩ |
    ⟨-, sp, memory, heq, harg, -⟩
  · rw [hstrings] at hover
    exact absurd hover (by decide +kernel)
  · have hlength : args.length = 2 := by
      simpa using congrArg List.length hstrings
    have hfirst : argument memory sp 0 = rowString ++ [0x42#8] := by
      have hget := congrArg (·[0]?) hstrings
      rw [harg 0 (by omega)]
      simpa [hlength] using hget
    refine ⟨sp, memory, heq, hfirst, ?_⟩
    rw [heq]
    rintro ⟨-, hall, -⟩
    have hwrong := hall 0 (by decide)
    rw [hfirst] at hwrong
    have hsame : rowString = rowString ++ [0x42#8] := Option.some.inj hwrong
    simp at hsame

end Sylphia
