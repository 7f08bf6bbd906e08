import Sylphia.Sys.FileDescriptor

/-!
# The system call Write

`SyscallHandler` copies what the caller wants to write to a buffer of 256 bytes on its own
stack and passes the address of that buffer on, with the length that the caller gave. The
copy stops at 255 bytes, but the length does not.
-/

namespace Sylphia

open Bytes BoundedFifo

/-- `FileFD`: the file as it was when it was opened. -/
structure FileFD where
  /-- `buffer_`, if it is not `nullptr`. -/
  buffer : Option Buffer
  /-- `file_size_`. -/
  fileSize : Nat
  /-- `read_pos_`. -/
  readPos : Nat
  /-- `valid_`. -/
  valid : Bool

/-- A descriptor of the table `g_fds`. -/
inductive FileDescriptor
  | console
  | keyboard (fd : KeyboardFD)
  | pipe (fd : PipeFD)
  | file (fd : FileFD)

/-- The characters that `g_console` was given, if there is a console. -/
abbrev Console := Option (List Byte)

namespace FileDescriptor

/-- `return len;` of a function that returns an `int`. -/
def toInt (len : Nat) : Int := (BitVec.ofNat 32 len).toInt

/-- `Write` of the bytes at an address. The console gets them as strings of one character,
so that it prints no NUL. -/
def write (console : Console) (bytes : List Byte) : FileDescriptor → Console × FileDescriptor × Int
  | .console =>
    match console with
    | none => (none, .console, 0)
    | some printed => (some (printed ++ bytes.filter (· != 0)), .console, toInt bytes.length)
  | .keyboard fd => (console, .keyboard fd, 0)
  | .pipe fd => let (fd, n) := fd.write bytes; (console, .pipe fd, toInt n)
  | .file fd => (console, .file fd, -1)

end FileDescriptor

/-- `g_fds` and `g_console`. -/
structure Descriptors where
  fds : Nat → Option FileDescriptor
  console : Console

namespace Descriptors

/-- The descriptor of a number, `fd >= 0 && fd < 16 && g_fds[fd]`. -/
def find (d : Descriptors) (fd : BitVec 64) : Option (Nat × FileDescriptor) :=
  let n := (fd.setWidth 32).toInt
  if 0 ≤ n ∧ n < 16 then (d.fds n.toNat).map fun descriptor => (n.toNat, descriptor) else none

end Descriptors

/-- The loop that copies the first bytes of the caller's buffer. -/
def copyUser (userBuf : Buffer) : Nat → Buffer → Buffer
  | 0, buf => buf
  | n + 1, buf => Function.update (copyUser userBuf n buf) n (userBuf n)

/-- The memory from `kernel_buf` on when `Write` of the descriptor is called; `stack` is what
was there before. -/
def kernelBuf (stack userBuf : Buffer) (len : Nat) : Buffer :=
  Function.update (copyUser userBuf (min len 255) stack) (if len < 255 then len else 255) 0

/-- The bytes that `Write` of the descriptor is given: an address and a length. -/
def writeArgument (stack userBuf : Buffer) (len : Nat) : List Byte :=
  slice (kernelBuf stack userBuf len) 0 len

namespace Descriptors

/-- The descriptor that the system call writes to, with its number and what it is handed. -/
def handed (d : Descriptors) (fd : BitVec 64) (stack userBuf : Buffer) (len : BitVec 64) :
    Option (Nat × FileDescriptor × List Byte) :=
  (d.find fd).map fun (n, descriptor) => (n, descriptor, writeArgument stack userBuf len.toNat)

/-- The system call `Write`. -/
def sysWrite (d : Descriptors) (fd : BitVec 64) (stack userBuf : Buffer) (len : BitVec 64) :
    Descriptors × Int :=
  match d.handed fd stack userBuf len with
  | none => (d, -1)
  | some (n, descriptor, bytes) =>
    let (console, descriptor, ret) := descriptor.write d.console bytes
    ({ fds := Function.update d.fds n (some descriptor), console := console }, ret)

end Descriptors

theorem copyUser_of_lt (userBuf buf : Buffer) {n k : Nat} (h : k < n) :
    copyUser userBuf n buf k = userBuf k := by
  induction n with
  | zero => omega
  | succ n ih =>
    rw [copyUser]
    by_cases hk : k = n
    · rw [hk, Function.update_self]
    · rw [Function.update_of_ne hk]
      exact ih (by omega)

theorem copyUser_of_ge (userBuf buf : Buffer) {n k : Nat} (h : n ≤ k) :
    copyUser userBuf n buf k = buf k := by
  induction n with
  | zero => rfl
  | succ n ih =>
    rw [copyUser, Function.update_of_ne (by omega)]
    exact ih (by omega)

theorem kernelBuf_of_lt (stack userBuf : Buffer) {len k : Nat} (hk : k < len) (hk' : k < 255) :
    kernelBuf stack userBuf len k = userBuf k := by
  rw [kernelBuf, Function.update_of_ne]
  · exact copyUser_of_lt userBuf stack (by omega)
  · split <;> omega

/-- The terminator of a long text is in the last byte of the buffer. -/
theorem kernelBuf_last (stack userBuf : Buffer) {len : Nat} (hlen : 255 ≤ len) :
    kernelBuf stack userBuf len 255 = 0 := by
  rw [kernelBuf, if_neg (by omega), Function.update_self]

/-- Behind the buffer is the stack. -/
theorem kernelBuf_behind (stack userBuf : Buffer) {len k : Nat} (hlen : 255 ≤ len) (hk : 255 < k) :
    kernelBuf stack userBuf len k = stack k := by
  rw [kernelBuf, if_neg (by omega), Function.update_of_ne (by omega)]
  exact copyUser_of_ge userBuf stack (by omega)

/-- A short text is handed on as it is. -/
theorem writeArgument_short (stack userBuf : Buffer) {len : Nat} (h : len ≤ 255) :
    writeArgument stack userBuf len = slice userBuf 0 len := by
  apply slice_congr
  intro k hk
  rw [Nat.zero_add]
  exact kernelBuf_of_lt stack userBuf hk (by omega)

theorem getElem?_writeArgument (stack userBuf : Buffer) {len k : Nat} (hk : k < len) :
    (writeArgument stack userBuf len)[k]? = some (kernelBuf stack userBuf len k) := by
  rw [writeArgument, getElem?_slice, if_pos hk, Nat.zero_add]

/-- Text of 256 bytes is handed on with its last byte replaced by the terminator. -/
theorem writeArgument_full (stack userBuf : Buffer) (h : userBuf 255 = 0) :
    writeArgument stack userBuf 256 = slice userBuf 0 256 := by
  apply slice_congr
  intro k hk
  rw [Nat.zero_add]
  by_cases hlast : k = 255
  · rw [hlast, kernelBuf_last stack userBuf (by omega), h]
  · exact kernelBuf_of_lt stack userBuf hk (by omega)

/-- The descriptor gets the caller's bytes, or the first of them, and nothing that depends on
the stack of the kernel. -/
structure OnlyCaller (d : Descriptors) (fd : BitVec 64) (userBuf : Buffer) (len : BitVec 64) :
    Prop where
  caller : ∀ stack, ∃ n descriptor bytes,
    d.handed fd stack userBuf len = some (n, descriptor, bytes) ∧
      bytes <+: slice userBuf 0 len.toNat
  alone : ∀ stack stack', d.handed fd stack userBuf len = d.handed fd stack' userBuf len

section

variable {d : Descriptors} {fd : BitVec 64} {n : Nat} {descriptor : FileDescriptor}
  {userBuf : Buffer} {len : BitVec 64}

/-- What is handed to an open descriptor. -/
theorem handed_eq (hopen : d.find fd = some (n, descriptor)) (stack userBuf : Buffer)
    (len : BitVec 64) :
    d.handed fd stack userBuf len =
      some (n, descriptor, writeArgument stack userBuf len.toNat) := by
  rw [Descriptors.handed, hopen, Option.map_some]

theorem OnlyCaller.of_eq (hopen : d.find fd = some (n, descriptor))
    (h : ∀ stack, writeArgument stack userBuf len.toNat = slice userBuf 0 len.toNat) :
    OnlyCaller d fd userBuf len where
  caller stack := ⟨n, descriptor, _, handed_eq hopen stack userBuf len, by rw [h stack]⟩
  alone stack stack' := by
    rw [handed_eq hopen, handed_eq hopen, h stack, h stack']

/-- The byte behind the buffer of a longer text is one of the stack. -/
theorem OnlyCaller.len_le (hopen : d.find fd = some (n, descriptor))
    (h : OnlyCaller d fd userBuf len) : len.toNat ≤ 256 := by
  by_contra hlong
  have hsame := h.alone (fun _ => 0) (fun _ => 1)
  rw [handed_eq hopen, handed_eq hopen] at hsame
  have hbyte : (writeArgument (fun _ => 0) userBuf len.toNat)[256]? =
      (writeArgument (fun _ => 1) userBuf len.toNat)[256]? := by
    injection hsame with hsame
    injection hsame with _ hsame
    injection hsame with _ hsame
    rw [hsame]
  rw [getElem?_writeArgument _ _ (by omega), getElem?_writeArgument _ _ (by omega),
    kernelBuf_behind _ _ (by omega) (by omega), kernelBuf_behind _ _ (by omega) (by omega)] at hbyte
  exact absurd hbyte (by decide)

/-- The terminator is handed on in place of the last byte of a text of 256 bytes. -/
theorem OnlyCaller.last (hopen : d.find fd = some (n, descriptor))
    (h : OnlyCaller d fd userBuf len) (hlen : len.toNat = 256) : userBuf 255 = 0 := by
  obtain ⟨n', descriptor', bytes, hbytes, hfirst⟩ := h.caller fun _ => 0
  rw [handed_eq hopen] at hbytes
  injection hbytes with hbytes
  injection hbytes with _ hbytes
  injection hbytes with _ hbytes
  subst hbytes
  have hwhole := hfirst.eq_of_length (by rw [writeArgument, length_slice, length_slice])
  have hbyte : (writeArgument (fun _ => 0) userBuf len.toNat)[255]? =
      (slice userBuf 0 len.toNat)[255]? := by rw [hwhole]
  rw [getElem?_writeArgument _ _ (by omega), kernelBuf_last _ _ (by omega), getElem?_slice,
    if_pos (by omega), Option.some.injEq] at hbyte
  exact hbyte.symm

end

/-- The descriptor gets only what the caller wrote exactly when that is at most 255 bytes, or
256 of which the last is 0. -/
theorem write_discloses_nothing_iff (d : Descriptors) (fd : BitVec 64) (n : Nat)
    (descriptor : FileDescriptor) (hopen : d.find fd = some (n, descriptor)) (userBuf : Buffer)
    (len : BitVec 64) :
    OnlyCaller d fd userBuf len ↔
      len.toNat ≤ 255 ∨ len.toNat = 256 ∧ userBuf 255 = 0 := by
  constructor
  · intro h
    have hle := h.len_le hopen
    by_cases hshort : len.toNat ≤ 255
    · exact Or.inl hshort
    · have hlen : len.toNat = 256 := by omega
      exact Or.inr ⟨hlen, h.last hopen hlen⟩
  · rintro (hshort | ⟨hlen, hlast⟩)
    · exact .of_eq hopen fun stack => writeArgument_short stack userBuf hshort
    · apply OnlyCaller.of_eq hopen
      intro stack
      rw [hlen]
      exact writeArgument_full stack userBuf hlast

/-- The descriptors of the system when it starts. -/
def startDescriptors : Descriptors where
  fds n := if n = 0 then some (.keyboard (.create fun _ => 0))
    else if n < 3 then some .console else none
  console := some []

theorem write_discloses_nothing_hello :
    OnlyCaller startDescriptors 1 (fun _ => 0x41) 5 :=
  (write_discloses_nothing_iff startDescriptors 1 1 .console rfl (fun _ => 0x41) 5).mpr
    (Or.inl (by decide))

/-- Text of 257 bytes shows the console a byte of the stack. -/
theorem write_discloses_stack :
    startDescriptors.find 1 = some (1, .console) ∧
      ¬ OnlyCaller startDescriptors 1 (fun _ => 0x41) 257 := by
  refine ⟨rfl, fun h => ?_⟩
  exact absurd (h.len_le (n := 1) rfl) (by decide)

end Sylphia
