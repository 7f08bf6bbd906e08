import Sylphia.Sys.Spawn

/-!
# The layout of the user stack

`AppTaskEntry` pushes the strings, fills up to a multiple of 16, and pushes a null pointer and the
pointers to the strings. Nothing checks that they fit: the padding counts.
-/

namespace Sylphia

open Bytes

/-- A part of memory: its address and its length. -/
abbrev StackPart := Nat × Nat

namespace StackPart

/-- The two parts have no byte in common. -/
def Apart (r r' : StackPart) : Prop := r.1 + r.2 ≤ r'.1 ∨ r'.1 + r'.2 ≤ r.1

/-- The part lies in the user stack. -/
def InStack (r : StackPart) : Prop :=
  userStackTop - userStackSize ≤ r.1 ∧ r.1 + r.2 ≤ userStackTop

theorem inStack {a n : Nat} (hlow : userStackTop - userStackSize ≤ a)
    (hhigh : a + n ≤ userStackTop) : InStack (a, n) := ⟨hlow, hhigh⟩

end StackPart

namespace UserEntry

variable (e : UserEntry)

/-- The word at `argv_ptr + 8 * i`. -/
def pointer (i : Nat) : Nat := ofLE (slice e.memory (e.argvPtr + 8 * i) 8)

/-- The pointers, the null pointer and the copies of the strings. -/
def regions (strings : List (List Byte)) : List StackPart :=
  (e.argvPtr, 8 * strings.length) :: (e.argvPtr + 8 * strings.length, 8) ::
    strings.zipIdx.map fun x => (e.pointer x.2, x.1.length + 1)

/-- The stack that a process can expect. -/
structure Layout (strings : List (List Byte)) : Prop where
  aligned : e.argvPtr % 8 = 0
  entry : e.argvPtr = e.sp
  copies : ∀ i (hi : i < strings.length), StringAt e.memory (e.pointer i) strings[i]
  null : e.pointer strings.length = 0
  apart : (e.regions strings).Pairwise StackPart.Apart
  inside : ∀ r ∈ e.regions strings, r.InStack

end UserEntry

variable {args : List Buffer} {memory : Buffer} {sp : Nat}

/-- Each string ends below the ones before it. -/
theorem pushStrings_below (hsp : stringBytes (args.map stringOf) ≤ sp) :
    ∀ i (hi : i < (pushStrings args sp memory).1.length) (hi' : i < args.length),
      (pushStrings args sp memory).1[i] + ((stringOf args[i]).length + 1) ≤ sp ∧
        ∀ j (hj : j < i), (pushStrings args sp memory).1[i] + ((stringOf args[i]).length + 1) ≤
          (pushStrings args sp memory).1[j] := by
  induction args generalizing sp memory with
  | nil => exact fun i _ hi' => absurd hi' (Nat.not_lt_zero i)
  | cons arg args ih =>
    rw [List.map_cons, stringBytes_cons] at hsp
    obtain ⟨p, hp⟩ : ∃ p, p = sp - ((stringOf arg).length + 1) := ⟨_, rfl⟩
    have hrest := @ih (strcpy memory p (stringOf arg)) p (by omega)
    simp only [pushStrings, ← hp]
    intro i hi hi'
    cases i with
    | zero =>
      simp only [List.getElem_cons_zero]
      exact ⟨by omega, fun j hj => absurd hj (Nat.not_lt_zero j)⟩
    | succ i =>
      obtain ⟨hlow, hbelow⟩ := hrest i (by simpa using hi) (by simpa using hi')
      simp only [List.getElem_cons_succ]
      refine ⟨by omega, fun j hj => ?_⟩
      cases j with
      | zero => exact hlow
      | succ j => exact hbelow j (by omega)

/-- With room for them and the padding, the strings fit below the top of the stack. -/
theorem stringBytes_le_top (hcount : args.length ≤ 32)
    (hroom : stackBytes (args.map stringOf) ≤ userStackSize) :
    stringBytes (args.map stringOf) ≤ userStackTop := by
  rw [stackBytes, List.length_map, userStackSize] at hroom
  rw [userStackTop]
  omega

/-- The pointers are those that the strings were pushed to. -/
theorem userEntry_pointer (hroom : stackBytes (args.map stringOf) ≤ userStackSize) {i : Nat}
    (hi : i < args.length) (hi' : i < (pushStrings args userStackTop memory).1.length) :
    (userEntry memory args).pointer i = (pushStrings args userStackTop memory).1[i] :=
  ((@userEntry_spec args memory hroom).1 i hi hi').2

/-- Each string lies above the pointers, below the top, and below the strings before it. -/
theorem userEntry_string (hcount : args.length ≤ 32)
    (hroom : stackBytes (args.map stringOf) ≤ userStackSize) {i : Nat} (hi : i < args.length) :
    (userEntry memory args).argvPtr + 8 * args.length + 8 ≤ (userEntry memory args).pointer i ∧
      (userEntry memory args).pointer i + ((stringOf args[i]).length + 1) ≤ userStackTop ∧
      ∀ j < i, (userEntry memory args).pointer i + ((stringOf args[i]).length + 1) ≤
        (userEntry memory args).pointer j := by
  have hlen := pushStrings_length args userStackTop memory
  have hbytes := stringBytes_le_top hcount hroom
  obtain ⟨-, hstrings⟩ := @pushStrings_spec args userStackTop memory hbytes
  obtain ⟨-, hlow, -⟩ := hstrings i (by rwa [hlen]) hi
  obtain ⟨hhigh, hapart⟩ := @pushStrings_below args memory userStackTop hbytes i (by rwa [hlen]) hi
  have hsp := userEntry_sp memory args
  have hargv : (userEntry memory args).argvPtr = (userEntry memory args).sp := rfl
  -- The base of the stack is above 0, so that no difference in `hsp` is cut off.
  have hbase := (room_iff memory args).mp hroom
  have htop : userStackTop = 0x70000000 := rfl
  have hsize : userStackSize = 65536 := rfl
  rw [userEntry_pointer hroom hi (by rwa [hlen])]
  refine ⟨by omega, hhigh, fun j hj => ?_⟩
  rw [userEntry_pointer hroom (hj.trans hi) (by rw [hlen]; omega)]
  exact hapart j hj

/-- The copies of the strings, by their indices. -/
theorem exists_of_mem_copies {e : UserEntry} {r : StackPart}
    (hr : r ∈ (args.map stringOf).zipIdx.map fun x => (e.pointer x.2, x.1.length + 1)) :
    ∃ i, ∃ hi : i < args.length, r = (e.pointer i, (stringOf args[i]).length + 1) := by
  obtain ⟨i, hi, rfl⟩ := List.getElem_of_mem hr
  exact ⟨i, by simpa using hi, by simp⟩

/-- No two parts of the stack overlap. -/
theorem userEntry_apart (hcount : args.length ≤ 32)
    (hroom : stackBytes (args.map stringOf) ≤ userStackSize) :
    ((userEntry memory args).regions (args.map stringOf)).Pairwise StackPart.Apart := by
  have hstring {i : Nat} (hi : i < args.length) := @userEntry_string args memory hcount hroom i hi
  rw [UserEntry.regions, List.length_map]
  refine List.pairwise_cons.mpr ⟨?_, List.pairwise_cons.mpr ⟨?_, ?_⟩⟩
  · rw [List.forall_mem_cons]
    refine ⟨Or.inl (Nat.le_refl _), fun r hr => ?_⟩
    obtain ⟨i, hi, rfl⟩ := exists_of_mem_copies hr
    exact Or.inl ((Nat.le_add_right _ 8).trans (hstring hi).1)
  · intro r hr
    obtain ⟨i, hi, rfl⟩ := exists_of_mem_copies hr
    exact Or.inl (hstring hi).1
  · rw [List.pairwise_iff_getElem]
    intro i j hi hj hij
    rw [List.length_map, List.length_zipIdx, List.length_map] at hj
    simp only [List.getElem_map, List.getElem_zipIdx, Nat.zero_add]
    exact Or.inr ((hstring hj).2.2 i hij)

/-- All of them lie in the stack. -/
theorem userEntry_inside (hcount : args.length ≤ 32)
    (hroom : stackBytes (args.map stringOf) ≤ userStackSize) :
    ∀ r ∈ (userEntry memory args).regions (args.map stringOf), r.InStack := by
  have hsp := userEntry_sp memory args
  have hbase := (room_iff memory args).mp hroom
  have htop : userStackTop = 0x70000000 := rfl
  have hsize : userStackSize = 65536 := rfl
  have hargv : (userEntry memory args).argvPtr = (userEntry memory args).sp := rfl
  rw [UserEntry.regions, List.length_map, List.forall_mem_cons, List.forall_mem_cons]
  refine ⟨StackPart.inStack (by omega) (by omega), StackPart.inStack (by omega) (by omega),
    fun r hr => ?_⟩
  obtain ⟨i, hi, rfl⟩ := exists_of_mem_copies hr
  obtain ⟨hlow, hhigh, -⟩ := @userEntry_string args memory hcount hroom i hi
  exact StackPart.inStack (by omega) hhigh

/-- The stack of a process whose arguments have room, with the padding. -/
theorem userEntry_layout (memory : Buffer) (hcount : args.length ≤ 32)
    (hroom : stackBytes (args.map stringOf) ≤ userStackSize) :
    (userEntry memory args).Layout (args.map stringOf) := by
  obtain ⟨hentry, hnull⟩ := @userEntry_spec args memory hroom
  have hlen := pushStrings_length args userStackTop memory
  refine ⟨?_, rfl, fun i hi => ?_, ?_, userEntry_apart hcount hroom, userEntry_inside hcount hroom⟩
  · have hsp := userEntry_sp memory args
    have htop : userStackTop = 0x70000000 := rfl
    have hargv : (userEntry memory args).argvPtr = (userEntry memory args).sp := rfl
    omega
  · rw [List.length_map] at hi
    rw [List.getElem_map, userEntry_pointer hroom hi (by rwa [hlen])]
    exact (hentry i hi (by rwa [hlen])).1
  · rw [List.length_map]
    exact hnull

/-- One string of 65509 characters and one of a single character: with their NULs, the pointers
and the null pointer they are 64 KB. -/
def fullArgs : List Buffer :=
  [strcpy (fun _ => 0) 0 (List.replicate 65509 0x41), strcpy (fun _ => 0) 0 [0x41]]

theorem map_stringOf_fullArgs :
    fullArgs.map stringOf = [List.replicate 65509 0x41, [0x41]] := by
  have hstring {s : List Byte} (h0 : 0#8 ∉ s) (hs : s.length ≤ stringBound) :
      stringOf (strcpy (fun _ => 0) 0 s) = s := (stringAt_strcpy _ 0 h0).cstring_eq hs
  rw [fullArgs, List.map_cons, List.map_cons, List.map_nil, hstring, hstring]
  · decide
  · decide
  · rw [List.mem_replicate]
    decide
  · rw [List.length_replicate]
    decide

/-- The padding between them and the pointers puts the first pointer below the user stack. -/
theorem layout_fails : ¬ ∀ memory (args : List Buffer), args.length ≤ 32 →
    stringBytes (args.map stringOf) + 8 * (args.length + 1) ≤ userStackSize →
    (userEntry memory args).Layout (args.map stringOf) := by
  intro h
  have hbytes : stringBytes (fullArgs.map stringOf) = 65512 := by
    rw [map_stringOf_fullArgs, stringBytes_cons, List.length_replicate]
    rfl
  have hlayout := h (fun _ => 0) fullArgs (by decide) (by rw [hbytes]; decide)
  have hlow := (hlayout.inside _ List.mem_cons_self).1
  have hsp := userEntry_sp (fun _ => 0) fullArgs
  rw [hbytes] at hsp
  rw [hlayout.entry, hsp] at hlow
  exact absurd hlow (by decide)

/-- Two short arguments. -/
theorem userEntry_layout_two : (userEntry (fun _ => 0)
      [strcpy (fun _ => 0) 0 [0x61], strcpy (fun _ => 0) 0 [0x62, 0x63]]).Layout
    ([strcpy (fun _ => 0) 0 [0x61], strcpy (fun _ => 0) 0 [0x62, 0x63]].map stringOf) := by
  have hstring {s : List Byte} (h0 : 0#8 ∉ s) (hs : s.length ≤ stringBound) :
      stringOf (strcpy (fun _ => 0) 0 s) = s := (stringAt_strcpy _ 0 h0).cstring_eq hs
  refine userEntry_layout _ (by decide) ?_
  rw [List.map_cons, List.map_cons, List.map_nil, hstring (by decide) (by decide),
    hstring (by decide) (by decide)]
  decide

end Sylphia
