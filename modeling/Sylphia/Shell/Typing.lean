import Sylphia.Shell.Commands
import Sylphia.Sys.FileDescriptor
import Sylphia.Usb.Keyboard

/-!
# From the keys to the shell

A report of the keyboard is turned into characters, these wait in the ring of the descriptor, and
the shell reads sixteen of them at a time. As long as the ring has room nothing is lost on this
way, nothing comes twice, and the order is kept.
-/

namespace Sylphia.Shell

open Bytes Words BoundedFifo Xhci

/-- `Update` for each of the reports, with a keyboard descriptor in `g_fds[0]`: the keyboard
afterwards, and the characters for which `OnInput` is called. -/
def typeReports (k : Keyboard) : List (List Byte) → Keyboard × List Byte
  | [] => (k, [])
  | report :: reports =>
    let k := { k with buf := report }
    ((typeReports k.nextReport reports).1, k.typed ++ (typeReports k.nextReport reports).2)

/-- What `Update` does when the controller has a report is to take the report in the buffer. -/
theorem update_eq {k : Keyboard} {c : Controller} (hattached : k.attached = true)
    (hreport : (c.pollEndpoint k.slotId k.epInterruptIn).1 = 1) : (k.update c).1 =
      { (typeReports k [k.buf]).1 with onInput := k.onInput ++ (typeReports k [k.buf]).2 } := by
  rw [Keyboard.update]
  generalize c.pollEndpoint k.slotId k.epInterruptIn = r at hreport
  obtain ⟨result, c1⟩ := r
  dsimp only at hreport ⊢
  rw [if_pos hreport, if_pos hattached, typeReports, typeReports, List.append_nil]
  rfl

/-- The loop of the shell at the keyboard: for each `Read` the reports that `Update` has taken since
the one before. -/
def session {ω : Type} (sys : SystemCalls ω) (k : Keyboard) (fd : KeyboardFD) (s : UserShell)
    (w : ω) : List (List (List Byte)) → Outcome UserShell ω
  | [] => .running s w
  | reports :: turns =>
    let (k, typed) := typeReports k reports
    let (fd, bytes) := fd.read typed 16
    (UserShell.onKeys sys s w bytes).bind fun s w => session sys k fd s (sys.yield w) turns

/-- The characters that come between the reads. -/
def bursts (k : Keyboard) : List (List (List Byte)) → List (List Byte)
  | [] => []
  | reports :: turns => (typeReports k reports).2 :: bursts (typeReports k reports).1 turns

/-- There is room for the characters that come, when so many are waiting. -/
def Fits : Nat → List (List Byte) → Prop
  | _, [] => True
  | waiting, typed :: rest =>
    waiting + typed.length ≤ KeyboardFD.bufferSize ∧ Fits (waiting + typed.length - 16) rest

/-- What the reads give of the characters that wait and of those that come. -/
def drained (waiting : List Byte) : List (List Byte) → List (List Byte)
  | [] => []
  | typed :: rest => (waiting ++ typed).take 16 :: drained ((waiting ++ typed).drop 16) rest

section Session

variable {ω : Type} (sys : SystemCalls ω) {fd : KeyboardFD} {waiting typed : List Byte}

/-- The reads give the characters in their order, each of them once. -/
theorem drained_prefix (waiting : List Byte) (rest : List (List Byte)) :
    (drained waiting rest).flatten <+: waiting ++ rest.flatten := by
  induction rest generalizing waiting with
  | nil => exact List.nil_prefix
  | cons typed rest ih =>
    have hsplit := List.take_append_drop 16 (waiting ++ typed)
    rw [drained, List.flatten_cons, List.flatten_cons, ← List.append_assoc, ← hsplit,
      List.append_assoc, List.take_append_drop]
    exact (List.prefix_append_right_inj _).mpr (ih _)

/-- Nothing waits for long if not much comes at a time. -/
theorem drained_of_short {rest : List (List Byte)} (h : ∀ typed ∈ rest, typed.length ≤ 16) :
    drained [] rest = rest ∧ Fits 0 rest := by
  induction rest with
  | nil => exact ⟨rfl, trivial⟩
  | cons typed rest ih =>
    rw [List.forall_mem_cons] at h
    obtain ⟨hdrained, hfits⟩ := ih h.2
    rw [drained, Fits, List.nil_append, List.take_of_length_le h.1, List.drop_eq_nil_of_le h.1,
      hdrained, Nat.zero_add, Nat.sub_eq_zero_of_le h.1]
    exact ⟨rfl, h.1.trans (by decide), hfits⟩

/-- The descriptor holds what waits. -/
structure Waits (fd : KeyboardFD) (waiting : List Byte) : Prop where
  valid : fd.ring.Valid KeyboardFD.bufferSize
  contents : fd.ring.contents KeyboardFD.bufferSize = waiting

theorem Waits.create (buffer : Nat → Byte) : Waits (KeyboardFD.create buffer) [] :=
  ⟨RingBuffer.valid_reset (by decide) ⟨buffer, 0, 0, 0⟩, rfl⟩

theorem Waits.onInput (h : Waits fd waiting) (hroom : waiting.length < KeyboardFD.bufferSize)
    (c : Byte) : Waits (fd.onInput c) (waiting ++ [c]) := by
  have hcount : fd.ring.count < KeyboardFD.bufferSize := by
    rwa [← RingBuffer.length_contents KeyboardFD.bufferSize, h.contents]
  rw [KeyboardFD.onInput, if_neg (Nat.not_le.mpr hcount)]
  exact ⟨h.valid.push hcount c, by rw [RingBuffer.contents_push h.valid hcount, h.contents]⟩

theorem Waits.inputs (h : Waits fd waiting)
    (hroom : waiting.length + typed.length ≤ KeyboardFD.bufferSize) :
    Waits (typed.foldl KeyboardFD.onInput fd) (waiting ++ typed) := by
  induction typed generalizing fd waiting with
  | nil => rwa [List.append_nil]
  | cons c typed ih =>
    rw [List.length_cons] at hroom
    rw [List.append_cons]
    refine ih (h.onInput (by omega) c) ?_
    rw [List.length_append, List.length_singleton]
    omega

/-- A read gives the oldest sixteen. -/
theorem Waits.read (h : Waits fd waiting)
    (hroom : waiting.length + typed.length ≤ KeyboardFD.bufferSize) :
    (fd.read typed 16).2 = (waiting ++ typed).take 16 ∧
      Waits (fd.read typed 16).1 ((waiting ++ typed).drop 16) := by
  obtain ⟨hvalid, hcontents⟩ := h.inputs hroom
  obtain ⟨hnext, hitems, hleft⟩ := RingBuffer.read_spec hvalid 16
  rw [KeyboardFD.read_eq]
  exact ⟨by rw [hitems, hcontents], hnext, by rw [hleft, hcontents]⟩

/-- At the keyboard the shell gets what the reads give of the characters. -/
theorem session_eq {k : Keyboard} {turns : List (List (List Byte))} (h : Waits fd waiting)
    (hfits : Fits waiting.length (bursts k turns)) (s : UserShell) (w : ω) :
    session sys k fd s w turns =
      UserShell.loop sys s w (drained waiting (bursts k turns)) := by
  induction turns generalizing k fd waiting s w with
  | nil => rfl
  | cons reports turns ih =>
    obtain ⟨hroom, hfits⟩ := hfits
    obtain ⟨hbytes, hnext⟩ := h.read hroom
    rw [session, bursts, drained, UserShell.loop]
    dsimp only
    rw [hbytes]
    congr
    funext s w
    refine ih hnext ?_ s _
    rwa [List.length_drop, List.length_append]

/-- The keyboard drives the machine of lines: as long as the ring of the descriptor has room, the
shell does with the characters that the reports stand for, in their order, each of them once and
sixteen at a time, what the machine does. The reports are those that `Update` takes. -/
theorem keyboard_drives_shell {k : Keyboard} {turns : List (List (List Byte))} {s : UserShell}
    {l : LineShell} (buffer : Nat → Byte) (hfits : Fits 0 (bursts k turns)) (hs : Edits s l)
    (w : ω) :
    Outcome.Agree Edits (session sys k (KeyboardFD.create buffer) s w turns)
        (LineShell.loop sys l w (drained [] (bursts k turns))) ∧
      (drained [] (bursts k turns)).flatten <+: (bursts k turns).flatten ∧
      ∀ (k : Keyboard) (c : Controller), k.attached = true →
        (c.pollEndpoint k.slotId k.epInterruptIn).1 = 1 → (k.update c).1 =
          { (typeReports k [k.buf]).1 with onInput := k.onInput ++ (typeReports k [k.buf]).2 } := by
  refine ⟨?_, drained_prefix [] _, fun _ _ => update_eq⟩
  rw [session_eq sys (.create buffer) hfits]
  exact loop_agree sys hs w _

/-- A keyboard on which nothing was typed yet. -/
def newKeyboard : Keyboard := ⟨1, 0x81, 0, List.replicate 8 0, List.replicate 8 0, true, []⟩

/-- The keys of `l` and `s` go down together, and the key of the end of the line after them. -/
theorem keyboard_drives_shell_ls : Outcome.Agree Edits
      (session recordingCalls newKeyboard (KeyboardFD.create fun _ => 0) UserShell.create ([], [])
        [[[0, 0, 0x0F, 0x16, 0, 0, 0, 0]],
          [[0, 0, 0x16, 0, 0, 0, 0, 0], [0, 0, 0x28, 0, 0, 0, 0, 0]]])
      (.running ⟨[], true⟩ (ascii "Sylphia:/$ ls\nSylphia:/$ ", [])) ∧
    [ascii "ls", newline].flatten <+: ascii "ls\n" := by
  have hbursts : bursts newKeyboard [[[0, 0, 0x0F, 0x16, 0, 0, 0, 0]],
      [[0, 0, 0x16, 0, 0, 0, 0, 0], [0, 0, 0x28, 0, 0, 0, 0, 0]]] = [ascii "ls", newline] := by
    decide +kernel
  have hshort : ∀ typed ∈ [ascii "ls", newline], typed.length ≤ 16 := by decide
  obtain ⟨hdrained, hfits⟩ := drained_of_short hshort
  obtain ⟨hagree, hprefix, -⟩ := keyboard_drives_shell recordingCalls (fun _ => 0) (hbursts ▸ hfits)
    (.clear false) ([], [])
  rw [hbursts, hdrained] at hagree hprefix
  exact ⟨hagree, hprefix⟩

end Session

/-- A character that a key stands for, with or without the shift key. -/
def Typable (c : Byte) : Prop :=
  c ≠ 0 ∧ (c ∈ Keyboard.hidToAsciiMap ∨ c ∈ Keyboard.hidToAsciiMapShift)

instance (c : Byte) : Decidable (Typable c) := inferInstanceAs (Decidable (_ ∧ _))

/-- The report with the keys of a character down. -/
def pressed (c : Byte) : List Byte :=
  let (shift, map) :=
    if Keyboard.hidToAsciiMap.contains c then (0x00, Keyboard.hidToAsciiMap)
    else (0x02, Keyboard.hidToAsciiMapShift)
  [shift, 0, BitVec.ofNat 8 (map.idxOf c), 0, 0, 0, 0, 0]

/-- The report with no key down. -/
def released : List Byte := List.replicate 8 0

/-- A character is typed by a stroke of its key, seen by one `Update` and the next. -/
def stroke (c : Byte) : List (List (List Byte)) := [[pressed c], [released]]

/-- No key was down at the last report. -/
def AtRest (k : Keyboard) : Prop := ∀ key ∈ k.prevBuf.drop 2, key = 0

instance (k : Keyboard) : Decidable (AtRest k) :=
  inferInstanceAs (Decidable (∀ key ∈ k.prevBuf.drop 2, key = 0))

section Strokes

variable {ω : Type} (sys : SystemCalls ω) {k : Keyboard} {c : Byte} {line name : List Byte}

/-- The key of a character is its place in the map. -/
theorem key_of_mem {map : List Byte} (hlen : map.length ≤ 256) (hzero : map.head? = some 0)
    (hc : c ≠ 0) (hmem : c ∈ map) : BitVec.ofNat 8 (map.idxOf c) ≠ 0 ∧
      map.getD (BitVec.ofNat 8 (map.idxOf c)).toNat 0 = c := by
  have hlt := List.idxOf_lt_length_of_mem hmem
  have hnat : (BitVec.ofNat 8 (map.idxOf c)).toNat = map.idxOf c := by
    rw [BitVec.toNat_ofNat]
    exact Nat.mod_eq_of_lt (hlt.trans_le hlen)
  have hat : map[map.idxOf c]? = some c := by
    rw [List.getElem?_eq_getElem hlt, List.getElem_idxOf hlt]
  rw [hnat, List.getD_eq_getElem?_getD, hat]
  refine ⟨fun h0 => hc ?_, rfl⟩
  rw [h0] at hnat
  rw [← hnat] at hat
  rw [List.head?_eq_getElem?] at hzero
  exact Option.some.inj (hat.symm.trans hzero)

/-- The map that the report selects has the character under its key. -/
theorem key_of_typable (hc : Typable c) :
    (pressed c).getD 2 0 ≠ 0 ∧ (if (pressed c).getD 0 0 &&& 0x02 ≠ 0 ∨
      (pressed c).getD 0 0 &&& 0x20 ≠ 0 then Keyboard.hidToAsciiMapShift
        else Keyboard.hidToAsciiMap).getD ((pressed c).getD 2 0).toNat 0 = c := by
  rw [pressed]
  by_cases hmem : c ∈ Keyboard.hidToAsciiMap
  · have hfirst : Keyboard.hidToAsciiMap.contains c = true := List.contains_iff_mem.mpr hmem
    simp only [hfirst, if_true, List.getD_cons_zero, List.getD_cons_succ]
    rw [if_neg (by decide)]
    exact key_of_mem (by decide) rfl hc.1 hmem
  · have hsecond : Keyboard.hidToAsciiMap.contains c = false :=
      Bool.eq_false_iff.mpr (mt List.contains_iff_mem.mp hmem)
    simp only [hsecond, Bool.false_eq_true, if_false, List.getD_cons_zero, List.getD_cons_succ]
    rw [if_pos (by decide)]
    exact key_of_mem (by decide) rfl hc.1 (hc.2.resolve_left hmem)

theorem typeReports_pressed (hk : AtRest k) (hc : Typable c) :
    (typeReports k [pressed c]).2 = [c] := by
  obtain ⟨hkey, hmap⟩ := key_of_typable hc
  have hnew : (k.prevBuf.drop 2).contains ((pressed c).getD 2 0) = false := by
    rw [← Bool.not_eq_true, List.contains_iff_mem]
    exact fun hmem => hkey (hk _ hmem)
  have hdown : ((pressed c).drop 2).filter
      (fun key => key != 0 && !(k.prevBuf.drop 2).contains key) = [(pressed c).getD 2 0] := by
    rw [show (pressed c).drop 2 = [(pressed c).getD 2 0, 0, 0, 0, 0, 0] from rfl,
      List.filter_cons_of_pos (by rw [hnew]; simpa using hkey),
      List.filter_eq_nil_iff.mpr (by simp)]
  rw [typeReports, typeReports, List.append_nil, Keyboard.typed]
  dsimp only
  rw [hdown, List.map_singleton, hmap]
  simpa using hc.1

theorem typeReports_released (k : Keyboard) : (typeReports k [released]).2 = [] := by
  have hup : (released.drop 2).filter
      (fun key => key != 0 && !(k.prevBuf.drop 2).contains key) = [] := by
    rw [List.filter_eq_nil_iff]
    intro key hkey
    rw [List.eq_of_mem_replicate hkey]
    simp
  rw [typeReports, typeReports, List.append_nil, Keyboard.typed]
  dsimp only
  rw [hup]
  rfl

/-- The characters of a text come one at a time. -/
theorem bursts_strokes (hk : AtRest k) (hline : ∀ c ∈ line, Typable c)
    (turns : List (List (List Byte))) : ∃ k', AtRest k' ∧ bursts k (line.flatMap stroke ++ turns) =
      (line.flatMap fun c => [[c], []]) ++ bursts k' turns := by
  induction line generalizing k with
  | nil => exact ⟨k, hk, rfl⟩
  | cons c line ih =>
    rw [List.forall_mem_cons] at hline
    have hrest : AtRest (typeReports (typeReports k [pressed c]).1 [released]).1 := by
      show ∀ key ∈ released.drop 2, key = 0
      decide
    obtain ⟨k', hk', hbursts⟩ := ih hrest hline.2
    refine ⟨k', hk', ?_⟩
    rw [List.flatMap_cons, List.flatMap_cons, List.append_assoc, List.append_assoc, stroke,
      List.cons_append, List.cons_append, List.nil_append, bursts, bursts,
      typeReports_pressed hk hline.1, typeReports_released, hbursts]
    rfl

theorem flatten_strokes (line : List Byte) : (line.flatMap fun c => [[c], []]).flatten = line := by
  induction line with
  | nil => rfl
  | cons c line ih =>
    rw [List.flatMap_cons, List.flatten_append, ih]
    rfl

/-- A line that is typed on the keyboard has its program started with the words of the line. -/
theorem typed_on_keyboard {fd : KeyboardFD} {s : UserShell} {shown : Bool}
    (hline : NamesProgram line name) (htypable : ∀ c ∈ line, Typable c) (hk : AtRest k)
    (hfd : Waits fd []) (hs : Edits s ⟨[], shown⟩) (w : ω) :
    Outcome.Agree Edits (session sys k fd s w (line.flatMap stroke ++ [[pressed 0x0A]]))
      ((startProgram sys (echo sys (echoReads sys shown w (line.flatMap fun c => [[c], []])).1
          (echoReads sys shown w (line.flatMap fun c => [[c], []])).2 [0x0A]).2
        (words 0x20 line) name).bind fun l w => .running l (sys.yield w)) := by
  obtain ⟨k', hk', hbursts⟩ := bursts_strokes hk htypable [[pressed 0x0A]]
  rw [bursts, bursts, typeReports_pressed hk' (by decide)] at hbursts
  have hshort : ∀ typed ∈ bursts k (line.flatMap stroke ++ [[pressed 0x0A]]),
      typed.length ≤ 16 := by
    rw [hbursts]
    intro typed hmem
    rw [List.mem_append, List.mem_flatMap] at hmem
    rcases hmem with ⟨c, -, hc⟩ | hmem
    · rcases List.mem_pair.mp hc with rfl | rfl <;> simp
    · rw [List.mem_singleton] at hmem
      rw [hmem]
      decide
  obtain ⟨hdrained, hfits⟩ := drained_of_short hshort
  have hflatten : (line.flatMap fun c => [[c], []]).flatten ++ [] = line := by
    rw [List.append_nil, flatten_strokes]
  have hloop := @loop_program ω sys line name shown hline _ [] hflatten w
  rw [List.nil_append] at hloop
  rw [session_eq sys hfd hfits, hdrained, hbursts, ← hloop]
  exact loop_agree sys hs w _

/-- The line `cp a b` is typed. -/
theorem typed_on_keyboard_cp : Outcome.Agree Edits
    (session recordingCalls newKeyboard (KeyboardFD.create fun _ => 0) UserShell.create ([], [])
      ((ascii "cp a b").flatMap stroke ++ [[pressed 0x0A]]))
    (.running ⟨[], false⟩ (ascii "Sylphia:/$ cp a b\n",
      [[ascii "/sys/bin/cp", ascii "cp", ascii "a", ascii "b"]])) := by
  have hline : NamesProgram (ascii "cp a b") (ascii "cp") := by decide +kernel
  have hwords : words 0x20 (ascii "cp a b") = [ascii "cp", ascii "a", ascii "b"] := by
    decide +kernel
  have hagree := typed_on_keyboard recordingCalls hline (by decide +kernel)
    (show AtRest newKeyboard by decide) (.create fun _ => 0) (.clear false) ([], [])
  rw [hwords] at hagree
  exact hagree

end Strokes

end Sylphia.Shell
