import Sylphia.Core.Bytes
import Sylphia.Core.RecordWalk
import Sylphia.Usb.Keyboard

/-!
# The configuration descriptor

`MassStorage::Initialize` and `Keyboard::Initialize` ask a device for its configuration
descriptor and walk over the descriptors in it. The size of the second request, the end of the
walk and the width of each step are what the device says.
-/

namespace Sylphia.Xhci

open Bytes Controller RecordWalk

/-- The fields of `USB::MassStorage` up to its endpoints. -/
structure MassStorage where
  slotId : BitVec 8
  epBulkIn : BitVec 8
  epBulkOut : BitVec 8
  deriving DecidableEq, Repr

/-- What a driver does with the buffer for the descriptor. -/
inductive BufferAccess where
  /-- A control transfer into the buffer. -/
  | request (r : Request)
  | read (offset : Nat)
  deriving DecidableEq, Repr

/-- The access stays inside a buffer of this size. -/
def BufferAccess.Inside (size : Nat) : BufferAccess → Prop
  | .request r => r.length.toNat ≤ size
  | .read offset => offset < size

/-- How the two control transfers end: `ControlIn` returns false, or true after the device has
sent these bytes. -/
structure Answers where
  header : Option (List Byte)
  whole : Option (List Byte)

/-- `GET_DESCRIPTOR` for the configuration descriptor. -/
def getConfiguration (length : BitVec 16) (buffer : BitVec 64) : Request :=
  ⟨0x80, 6, 0x0200, 0, length, buffer⟩

/-- A control transfer puts no more than it was asked for into the buffer. -/
def receive (buf : Buffer) (length : BitVec 16) (bytes : List Byte) : Buffer :=
  splice buf 0 (bytes.take length.toNat)

/-- `cd->total_length`. -/
def totalLength (buf : Buffer) : BitVec 16 := BitVec.ofNat 16 (ofLE (slice buf 2 2))

/-- `interface_class == class && interface_sub_class == sub && interface_protocol == protocol` for
the descriptor at `p`. -/
def interfaceIs (buf : Buffer) (cls sub protocol : Byte) (p : Nat) : Bool :=
  buf (p + 5) == cls && buf (p + 6) == sub && buf (p + 7) == protocol

/-- What this comparison reads. -/
def interfaceReads (buf : Buffer) (cls sub : Byte) (p : Nat) : List Nat :=
  if buf (p + 5) ≠ cls then [p + 5]
  else if buf (p + 6) ≠ sub then [p + 5, p + 6]
  else [p + 5, p + 6, p + 7]

/-- The part that the two `Initialize` share: the header, the whole descriptor, and the loop over
what has come. There is no result of the loop when a transfer fails. -/
def walkConfiguration {S R : Type} (walk : Buffer → RecordWalk S R) (s : S) (answers : Answers)
    (buffer : BitVec 64) (buf : Buffer) (n : Nat) :
    Option (List BufferAccess × Option (R ⊕ S)) :=
  match answers.header with
  | none => some ([.request (getConfiguration 9 buffer)], none)
  | some bytes =>
    let buf1 := receive buf 9 bytes
    let total := totalLength buf1
    let log := [.request (getConfiguration 9 buffer), .read 2, .read 3,
      .request (getConfiguration total buffer)]
    match answers.whole with
    | none => some (log, none)
    | some bytes =>
      ((walk (receive buf1 total bytes)).run total.toNat n s 0).map fun x =>
        (log ++ x.1.map .read, some x.2)

namespace MassStorage

/-- An endpoint behind a mass storage interface. -/
def endpoint (m : MassStorage) (addr attributes : Byte) : MassStorage :=
  if attributes &&& 3 = 2 then
    if addr &&& 0x80 ≠ 0 then { m with epBulkIn := addr } else { m with epBulkOut := addr }
  else m

/-- What a turn of the loop reads. -/
def reads (buf : Buffer) (foundInterface : Bool) (p : Nat) : List Nat :=
  [p, p + 1] ++
    if buf (p + 1) = 4 then interfaceReads buf 0x08 0x06 p
    else if buf (p + 1) = 5 ∧ foundInterface then [p + 2, p + 3]
    else []

/-- The loop over the descriptors, with `found_interface`. -/
def walk (buf : Buffer) : RecordWalk (MassStorage × Bool) Empty where
  width p := (buf p).toNat
  reads s p := reads buf s.2 p
  turn s p := .inr <|
    if buf (p + 1) = 4 then (s.1, interfaceIs buf 0x08 0x06 0x50 p)
    else if buf (p + 1) = 5 ∧ s.2 then (s.1.endpoint (buf (p + 2)) (buf (p + 3)), s.2)
    else s

/-- Whether both endpoints have been found. -/
def afterWalk (m : MassStorage) : Option (Empty ⊕ MassStorage × Bool) → Bool × MassStorage
  | none => (false, m)
  | some (.inr (m', _)) => (m'.epBulkIn ≠ 0 ∧ m'.epBulkOut ≠ 0, m')

/-- `Initialize` up to the configuration of the endpoints: whether it comes to that. -/
def initializeFrom (m : MassStorage) (answers : Answers) (buffer : BitVec 64) (buf : Buffer)
    (n : Nat) : Option (List BufferAccess × Bool × MassStorage) :=
  (walkConfiguration walk (m, false) answers buffer buf n).map fun x => (x.1, m.afterWalk x.2)

end MassStorage

namespace Keyboard

/-- What a turn of the loop reads. -/
def reads (buf : Buffer) (isKeyboard : Bool) (p : Nat) : List Nat :=
  [p, p + 1] ++
    if buf (p + 1) = 4 then interfaceReads buf 3 1 p
    else if buf (p + 1) = 5 ∧ isKeyboard then
      if buf (p + 2) &&& 0x80 ≠ 0 then [p + 2, p + 3] else [p + 2]
    else []

/-- An interrupt endpoint to the host, behind a keyboard interface. -/
def IsEndpoint (buf : Buffer) (isKeyboard : Bool) (p : Nat) : Prop :=
  buf (p + 1) = 5 ∧ isKeyboard ∧ buf (p + 2) &&& 0x80 ≠ 0 ∧ buf (p + 3) &&& 3 = 3

instance decidableIsEndpoint (buf : Buffer) (isKeyboard : Bool) (p : Nat) :
    Decidable (IsEndpoint buf isKeyboard p) :=
  inferInstanceAs (Decidable (buf (p + 1) = 5 ∧ isKeyboard ∧ buf (p + 2) &&& 0x80 ≠ 0 ∧
    buf (p + 3) &&& 3 = 3))

/-- The loop over the descriptors, with `is_keyboard`. It returns the address of the endpoint. -/
def walk (buf : Buffer) : RecordWalk Bool Byte where
  width p := (buf p).toNat
  reads isKeyboard p := reads buf isKeyboard p
  turn isKeyboard p :=
    if buf (p + 1) = 4 then .inr (interfaceIs buf 3 1 1 p)
    else if IsEndpoint buf isKeyboard p then .inl (buf (p + 2))
    else .inr isKeyboard

/-- What `Initialize` returns behind the loop, or in it after `ConfigureEndpoint`. When that
succeeds, `start` comes before. -/
def afterWalk (k : Keyboard) (configured : Bool) : Option (Byte ⊕ Bool) → Bool × Keyboard
  | none => (false, k)
  | some (.inl addr) => (configured, { k with epInterruptIn := addr })
  | some (.inr _) => (k.epInterruptIn ≠ 0, k)

/-- `Initialize`, given whether the request for the device descriptor and `ConfigureEndpoint`
succeed. -/
def initializeFrom (k : Keyboard) (device : Bool) (answers : Answers) (configured : Bool)
    (buffer : BitVec 64) (buf : Buffer) (n : Nat) :
    Option (List BufferAccess × Bool × Keyboard) :=
  if device then
    (walkConfiguration walk false answers buffer buf n).map fun x =>
      (x.1, k.afterWalk configured x.2)
  else some ([], false, k)

end Keyboard

/-- The loop of the function ends after some number of turns, and all it has done with the buffer
stays inside. -/
def StaysInside {α : Type} (size : Nat) (call : Nat → Option (List BufferAccess × α)) : Prop :=
  ∃ n log result, call n = some (log, result) ∧ ∀ a ∈ log, a.Inside size

/-- Behind the descriptors at `ps`, the last one first, one is in an interface of this kind. -/
def behindInterface (buf : Buffer) (cls sub protocol : Byte) : List Nat → Bool
  | [] => false
  | p :: ps =>
    if buf (p + 1) = 4 then interfaceIs buf cls sub protocol p
    else behindInterface buf cls sub protocol ps

/-- No descriptor that begins below `total` is empty or has fields behind the buffer. -/
def MassStorage.DescriptorsFit (buf : Buffer) (total : Nat) : Prop :=
  ∀ ps p, Follows (fun p => (buf p).toNat) (fun _ _ => True) ps p → p < total →
    (∀ o ∈ reads buf (behindInterface buf 0x08 0x06 0x50 ps) p, o < 1024) ∧ 0 < (buf p).toNat

/-- Up to the first interrupt endpoint of a keyboard, no descriptor that begins below `total` has
fields behind the buffer, and none before it is empty. -/
def Keyboard.DescriptorsFit (buf : Buffer) (total : Nat) : Prop :=
  ∀ ps p, Follows (fun p => (buf p).toNat)
      (fun ps p => ¬IsEndpoint buf (behindInterface buf 3 1 1 ps) p) ps p → p < total →
    (∀ o ∈ reads buf (behindInterface buf 3 1 1 ps) p, o < 256) ∧
      (¬IsEndpoint buf (behindInterface buf 3 1 1 ps) p → 0 < (buf p).toNat)

/-- What the device answers fits into a buffer of this size: the size it gives, and once the
whole descriptor has come, the descriptors in it. -/
def Answers.Fit (answers : Answers) (size : Nat) (descriptors : Buffer → Nat → Prop)
    (buf : Buffer) : Prop :=
  ∀ header ∈ answers.header, (totalLength (receive buf 9 header)).toNat ≤ size ∧
    ∀ whole ∈ answers.whole,
      descriptors (receive (receive buf 9 header) (totalLength (receive buf 9 header)) whole)
        (totalLength (receive buf 9 header)).toNat

variable {S R : Type} {walk : Buffer → RecordWalk S R} {s : S} {answers : Answers} {size : Nat}
  {buffer : BitVec 64} {buf : Buffer}

theorem staysInside_map {α β : Type} {call : Nat → Option (List BufferAccess × α)}
    (f : α → β) : StaysInside size (fun n => (call n).map fun x => (x.1, f x.2)) ↔
      StaysInside size call := by
  constructor
  · rintro ⟨n, log, result, hcall, hinside⟩
    obtain ⟨⟨log', result'⟩, hcall', heq⟩ := Option.map_eq_some_iff.mp hcall
    obtain ⟨rfl, -⟩ := Prod.mk.inj heq
    exact ⟨n, log', result', hcall', hinside⟩
  · rintro ⟨n, log, result, hcall, hinside⟩
    exact ⟨n, log, f result, by simp only [hcall, Option.map_some], hinside⟩

/-- The accesses before the loop are inside exactly when the second request is. -/
theorem inside_log_iff (buffer : BitVec 64) (total : BitVec 16) (reads : List Nat)
    (hsize : 9 ≤ size) :
    (∀ a ∈ [.request (getConfiguration 9 buffer), .read 2, .read 3,
        .request (getConfiguration total buffer)] ++ reads.map BufferAccess.read,
      a.Inside size) ↔ total.toNat ≤ size ∧ ∀ o ∈ reads, o < size := by
  have hheader : (BufferAccess.request (getConfiguration 9 buffer)).Inside size := hsize
  have h2 : (BufferAccess.read 2).Inside size := Nat.lt_of_lt_of_le (by decide) hsize
  have h3 : (BufferAccess.read 3).Inside size := Nat.lt_of_lt_of_le (by decide) hsize
  simp only [List.cons_append, List.nil_append, List.forall_mem_cons, List.forall_mem_map, hheader,
    h2, h3, true_and]
  rfl

/-- The second transfer fails. -/
theorem staysInside_failed_iff (hsize : 9 ≤ size) (bytes : List Byte) :
    StaysInside size (walkConfiguration walk s ⟨some bytes, none⟩ buffer buf) ↔
      (totalLength (receive buf 9 bytes)).toNat ≤ size := by
  have hcall (n : Nat) : walkConfiguration walk s ⟨some bytes, none⟩ buffer buf n =
      some ([.request (getConfiguration 9 buffer), .read 2, .read 3,
        .request (getConfiguration (totalLength (receive buf 9 bytes)) buffer)], none) := rfl
  have hlog := inside_log_iff buffer (totalLength (receive buf 9 bytes)) [] hsize
  simp only [StaysInside, hcall]
  constructor
  · rintro ⟨_, log, result, heq, hinside⟩
    obtain ⟨rfl, -⟩ := Prod.mk.inj (Option.some.inj heq)
    exact (hlog.mp hinside).1
  · intro hle
    exact ⟨0, _, _, rfl, hlog.mpr ⟨hle, fun o ho => absurd ho List.not_mem_nil⟩⟩

/-- Both transfers succeed. -/
theorem staysInside_walked_iff (hsize : 9 ≤ size) (bytes bytes' : List Byte) {buf1 buf2 : Buffer}
    {total : BitVec 16} (hbuf1 : receive buf 9 bytes = buf1) (htotal : totalLength buf1 = total)
    (hbuf2 : receive buf1 total bytes' = buf2) (hsettles : (walk buf2).Settles) :
    StaysInside size (walkConfiguration walk s ⟨some bytes, some bytes'⟩ buffer buf) ↔
      total.toNat ≤ size ∧ (walk buf2).Fits total.toNat size s 0 := by
  have hcall (n : Nat) : walkConfiguration walk s ⟨some bytes, some bytes'⟩ buffer buf n =
      ((walk buf2).run total.toNat n s 0).map fun x =>
        ([.request (getConfiguration 9 buffer), .read 2, .read 3,
          .request (getConfiguration total buffer)] ++ x.1.map .read, some x.2) := by
    rw [← hbuf2, ← htotal, ← hbuf1]
    rfl
  have hlog (reads : List Nat) := inside_log_iff buffer total reads hsize
  simp only [StaysInside, hcall]
  constructor
  · rintro ⟨n, log, result, hmap, hinside⟩
    obtain ⟨⟨reads, result'⟩, hrun, heq⟩ := Option.map_eq_some_iff.mp hmap
    obtain ⟨rfl, -⟩ := Prod.mk.inj heq
    obtain ⟨hle, hreads⟩ := (hlog reads).mp hinside
    exact ⟨hle, (run_iff hsettles).mp ⟨n, reads, result', hrun, hreads⟩⟩
  · rintro ⟨hle, hrecords⟩
    obtain ⟨n, reads, result, hrun, hreads⟩ := hrecords.run
    exact ⟨n, _, _, by rw [hrun, Option.map_some], (hlog reads).mpr ⟨hle, hreads⟩⟩

theorem walkConfiguration_iff {descriptors : Buffer → Nat → Prop} (hsize : 9 ≤ size)
    (hsettles : ∀ buf, (walk buf).Settles)
    (hfits : ∀ buf total, (walk buf).Fits total size s 0 ↔ descriptors buf total) :
    StaysInside size (walkConfiguration walk s answers buffer buf) ↔
      answers.Fit size descriptors buf := by
  obtain ⟨header, whole⟩ := answers
  cases header with
  | none =>
    have hheader : ∀ a ∈ [BufferAccess.request (getConfiguration 9 buffer)], a.Inside size := by
      rw [List.forall_mem_singleton]
      exact hsize
    exact iff_of_true ⟨0, _, _, rfl, hheader⟩ (by rintro _ ⟨⟩)
  | some bytes =>
    cases whole with
    | none =>
      rw [staysInside_failed_iff hsize]
      simp [Answers.Fit]
    | some bytes' =>
      rw [staysInside_walked_iff hsize bytes bytes' rfl rfl rfl (hsettles _), hfits]
      simp [Answers.Fit]

theorem MassStorage.endpoint_endpoint (m : MassStorage) (addr attributes : Byte) :
    (m.endpoint addr attributes).endpoint addr attributes = m.endpoint addr attributes := by
  unfold endpoint
  split_ifs <;> rfl

theorem MassStorage.walk_settles (buf : Buffer) : (MassStorage.walk buf).Settles := by
  intro s s' p hturn
  obtain rfl := Sum.inr.inj hturn
  simp only [MassStorage.walk]
  split
  · rfl
  · split
    · rw [endpoint_endpoint]
    · rfl

theorem Keyboard.walk_settles (buf : Buffer) : (Keyboard.walk buf).Settles := by
  intro isKeyboard s' p hturn
  simp only [Keyboard.walk] at hturn ⊢
  split at hturn
  · next h4 => rw [if_pos h4, hturn]
  · next h4 =>
    split at hturn
    · cases hturn
    · next h5 =>
      obtain rfl := Sum.inr.inj hturn
      rw [if_neg h4, if_neg h5]

theorem MassStorage.walk_tells (buf : Buffer) : (MassStorage.walk buf).Tells
    (behindInterface buf 0x08 0x06 0x50) Prod.snd fun _ _ => True where
  goesOn_iff _ := iff_of_true trivial ⟨_, rfl⟩
  next {ps p s s'} hs hturn := by
    obtain rfl := Sum.inr.inj hturn
    rw [behindInterface]
    split
    · rfl
    · split
      · exact hs
      · exact hs

theorem Keyboard.walk_tells (buf : Buffer) : (Keyboard.walk buf).Tells
    (behindInterface buf 3 1 1) id
    fun ps p => ¬IsEndpoint buf (behindInterface buf 3 1 1 ps) p where
  goesOn_iff {ps p s} hs := by
    obtain rfl : s = behindInterface buf 3 1 1 ps := hs
    simp only [Keyboard.walk]
    split
    · next h4 => exact iff_of_true (fun h => absurd (h4.symm.trans h.1) (by decide)) ⟨_, rfl⟩
    · split
      · next h => exact iff_of_false (not_not_intro h) (by rintro ⟨_, ⟨⟩⟩)
      · next h => exact iff_of_true h ⟨_, rfl⟩
  next {ps p s s'} hs hturn := by
    simp only [Keyboard.walk] at hturn
    rw [behindInterface]
    split at hturn
    · next h4 => rw [if_pos h4, id_eq, ← Sum.inr.inj hturn]
    · next h4 =>
      split at hturn
      · cases hturn
      · rw [if_neg h4, id_eq, ← Sum.inr.inj hturn]
        exact hs

theorem MassStorage.walk_fits_iff (m : MassStorage) (buf : Buffer) (total : Nat) :
    (MassStorage.walk buf).Fits total 1024 (m, false) 0 ↔ MassStorage.DescriptorsFit buf total := by
  have hreads (s : MassStorage × Bool) (p : Nat) :
      (MassStorage.walk buf).reads s p = MassStorage.reads buf s.2 p := rfl
  refine ((MassStorage.walk_tells buf).fits_iff rfl hreads).trans ?_
  simp only [MassStorage.DescriptorsFit, MassStorage.walk, true_imp_iff]

theorem Keyboard.walk_fits_iff (buf : Buffer) (total : Nat) :
    (Keyboard.walk buf).Fits total 256 false 0 ↔ Keyboard.DescriptorsFit buf total :=
  (Keyboard.walk_tells buf).fits_iff rfl fun _ _ => rfl

theorem MassStorage.initializeFrom_iff (m : MassStorage) :
    StaysInside 1024 (m.initializeFrom answers buffer buf) ↔
      answers.Fit 1024 MassStorage.DescriptorsFit buf := by
  have hsize : 9 ≤ 1024 := by decide
  exact (staysInside_map m.afterWalk).trans
    (walkConfiguration_iff hsize MassStorage.walk_settles m.walk_fits_iff)

theorem Keyboard.initializeFrom_iff (k : Keyboard) (device configured : Bool) :
    StaysInside 256 (k.initializeFrom device answers configured buffer buf) ↔
      (device → answers.Fit 256 Keyboard.DescriptorsFit buf) := by
  have hsize : 9 ≤ 256 := by decide
  cases device with
  | false => exact iff_of_true ⟨0, _, _, rfl, by rintro _ ⟨⟩⟩ (fun h => by cases h)
  | true =>
    have hwalk : StaysInside 256 (k.initializeFrom true answers configured buffer buf) ↔
        answers.Fit 256 Keyboard.DescriptorsFit buf :=
      (staysInside_map (k.afterWalk configured)).trans
        (walkConfiguration_iff hsize Keyboard.walk_settles Keyboard.walk_fits_iff)
    exact hwalk.trans ⟨fun h _ => h, fun h => h rfl⟩

/-- The length of a descriptor of this type that has all the fields the drivers know. -/
def minLength (type : Byte) : Nat := if type = 4 then 9 else if type = 5 then 7 else 2

/-- From an offset on, descriptors with all their fields fill the bytes up to `total`. -/
inductive WellFormed (buf : Buffer) (total : Nat) : Nat → Prop
  | done : WellFormed buf total total
  | descriptor {p : Nat} : minLength (buf (p + 1)) ≤ (buf p).toNat →
      WellFormed buf total (p + (buf p).toNat) → WellFormed buf total p

theorem WellFormed.le {total p : Nat} (h : WellFormed buf total p) : p ≤ total := by
  induction h with
  | done => exact Nat.le_refl _
  | descriptor _ _ ih => exact Nat.le_of_add_right_le ih

theorem minLength_pos (type : Byte) : 2 ≤ minLength type := by
  unfold minLength
  split_ifs <;> decide

/-- A walk that reads only fields fits over well-formed descriptors. -/
theorem WellFormed.fits {W : RecordWalk S R} {total p : Nat} (h : WellFormed buf total p)
    (hwidth : ∀ p, W.width p = (buf p).toNat)
    (hreads : ∀ s p, ∀ o ∈ W.reads s p, o < p + minLength (buf (p + 1))) (htotal : total ≤ size)
    (s : S) : W.Fits total size s p := by
  induction h generalizing s with
  | done => exact fits_of_le (Nat.le_refl _)
  | @descriptor p hmin hrest ih =>
    have hle := hrest.le
    have hpos := minLength_pos (buf (p + 1))
    have hinside : ∀ o ∈ W.reads s p, o < size := fun o ho => by
      have ho := hreads s p o ho
      omega
    cases hturn : W.turn s p with
    | inl r => exact fits_of_return hturn hinside
    | inr s' =>
      refine fits_of_turn hturn hinside ?_ ?_
      · rw [hwidth]
        omega
      · rw [hwidth]
        exact ih s'

theorem interfaceReads_lt {cls sub : Byte} {p o : Nat} (ho : o ∈ interfaceReads buf cls sub p) :
    o < p + 9 := by
  unfold interfaceReads at ho
  split_ifs at ho <;> simp only [List.mem_cons, List.not_mem_nil, or_false] at ho <;> omega

/-- A turn that reads the fields of an interface, or of an endpoint, reads no more than these. -/
theorem turnReads_lt {cls sub : Byte} {inInterface : Bool} {endpoint : List Nat} {p : Nat}
    (hendpoint : ∀ o ∈ endpoint, o < p + 7) :
    ∀ o ∈ [p, p + 1] ++
        (if buf (p + 1) = 4 then interfaceReads buf cls sub p
        else if buf (p + 1) = 5 ∧ inInterface then endpoint
        else []), o < p + minLength (buf (p + 1)) := by
  intro o ho
  have hmin := minLength_pos (buf (p + 1))
  rcases List.mem_append.mp ho with ho | ho
  · simp only [List.mem_cons, List.not_mem_nil, or_false] at ho
    omega
  · split at ho
    · next h4 =>
      rw [minLength, if_pos h4]
      exact interfaceReads_lt ho
    · next h4 =>
      split at ho
      · next h5 =>
        rw [minLength, if_neg h4, if_pos h5.1]
        exact hendpoint o ho
      · exact absurd ho List.not_mem_nil

theorem MassStorage.reads_lt (foundInterface : Bool) (p : Nat) :
    ∀ o ∈ MassStorage.reads buf foundInterface p, o < p + minLength (buf (p + 1)) :=
  turnReads_lt (by simp)

theorem Keyboard.reads_lt (isKeyboard : Bool) (p : Nat) :
    ∀ o ∈ Keyboard.reads buf isKeyboard p, o < p + minLength (buf (p + 1)) :=
  turnReads_lt (by split <;> simp)

/-- A well-formed descriptor that is no longer than the buffer meets the condition. -/
theorem WellFormed.descriptorsFit {total : Nat} (h : WellFormed buf total 0) :
    (total ≤ 1024 → MassStorage.DescriptorsFit buf total) ∧
      (total ≤ 256 → Keyboard.DescriptorsFit buf total) := by
  refine ⟨fun htotal => ?_, fun htotal => ?_⟩
  · exact (MassStorage.walk_fits_iff ⟨0, 0, 0⟩ buf total).mp
      (h.fits (fun _ => rfl) (fun s p => MassStorage.reads_lt s.2 p) htotal _)
  · exact (Keyboard.walk_fits_iff buf total).mp
      (h.fits (fun _ => rfl) Keyboard.reads_lt htotal false)

/-- Both walks end and stay inside their buffers exactly when what the device answers fits, as
well-formed descriptors do that are no longer than the buffer. -/
theorem descriptor_walks_iff (answers : Answers) (buffer : BitVec 64) (buf : Buffer) :
    (∀ m : MassStorage, StaysInside 1024 (m.initializeFrom answers buffer buf) ↔
      answers.Fit 1024 MassStorage.DescriptorsFit buf) ∧
    (∀ (k : Keyboard) (device configured : Bool),
      StaysInside 256 (k.initializeFrom device answers configured buffer buf) ↔
        (device → answers.Fit 256 Keyboard.DescriptorsFit buf)) ∧
    ∀ (bytes : Buffer) (total : Nat), WellFormed bytes total 0 →
      (total ≤ 1024 → MassStorage.DescriptorsFit bytes total) ∧
        (total ≤ 256 → Keyboard.DescriptorsFit bytes total) :=
  ⟨MassStorage.initializeFrom_iff, Keyboard.initializeFrom_iff,
    fun _ _ => WellFormed.descriptorsFit⟩

/-- A configuration descriptor of 10 bytes: behind its header there is a descriptor of length 0. -/
def emptyDescriptor : Answers where
  header := some [9, 2, 10, 0, 1, 1, 0, 0x80, 50]
  whole := some [9, 2, 10, 0, 1, 1, 0, 0x80, 50, 0]

/-- The walk of the mass storage driver never gets behind the empty descriptor. -/
theorem descriptor_walk_endless :
    ¬((∀ (m : MassStorage) (answers : Answers) (buffer : BitVec 64) (buf : Buffer),
        StaysInside 1024 (m.initializeFrom answers buffer buf)) ∧
      ∀ (k : Keyboard) (device : Bool) (answers : Answers) (configured : Bool)
        (buffer : BitVec 64) (buf : Buffer),
        StaysInside 256 (k.initializeFrom device answers configured buffer buf)) := by
  rintro ⟨h, -⟩
  obtain ⟨-, hfits⟩ := (MassStorage.initializeFrom_iff ⟨1, 0, 0⟩).mp
    (h ⟨1, 0, 0⟩ emptyDescriptor 0x8000 fun _ => 0) _ rfl
  -- The header is the first descriptor, and 9 bytes long.
  exact absurd (hfits _ rfl [0] 9 (.cons .nil trivial) (by decide)).2 (by decide)

/-- A memory stick: its configuration, its interface and two bulk endpoints. -/
example : (MassStorage.initializeFrom ⟨1, 0, 0⟩
      ⟨some [9, 2, 32, 0, 1, 1, 0, 0x80, 50],
        some [9, 2, 32, 0, 1, 1, 0, 0x80, 50, 9, 4, 0, 0, 2, 8, 6, 0x50, 0,
          7, 5, 0x81, 2, 0, 2, 0, 7, 5, 0x02, 2, 0, 2, 0]⟩
      0x8000 (fun _ => 0) 5).map Prod.snd = some (true, ⟨1, 0x81, 0x02⟩) := by
  decide +kernel

end Sylphia.Xhci
