import Mathlib.Algebra.Order.Group.Nat
import Sylphia.Core.FixedWrites
import Sylphia.Core.LinkWalk

/-!
# Message interrupts of a PCI device

`SetupMSI` walks along the capabilities of a device until it finds MSI-X or MSI, and writes to the
registers of what it finds. The links between the capabilities are what the device says.
-/

namespace Sylphia.PCI

open LinkWalk WriteLog

/-- The registers of all devices, by what `kConfigAddress` is set to. -/
abbrev ConfigSpace := BitVec 32 → BitVec 32

/-- A function on the bus, as the scans count them. -/
structure Device where
  bus : BitVec 8
  device : BitVec 8
  function : BitVec 8
  device_lt : device.toNat < 32
  function_lt : function.toNat < 8
  deriving DecidableEq

/-- Enable Bit(31) | Bus(23-16) | Device(15-11) | Function(10-8) | Register(7-2). -/
def makeAddress (bus device function regAddr : BitVec 8) : BitVec 32 :=
  1#32 <<< 31 ||| bus.setWidth 32 <<< 16 ||| device.setWidth 32 <<< 11 |||
    function.setWidth 32 <<< 8 ||| (regAddr &&& 0xFC).setWidth 32

/-- The address of a register. -/
def Device.address (dev : Device) (regAddr : BitVec 8) : BitVec 32 :=
  makeAddress dev.bus dev.device dev.function regAddr

def readConfReg (config : ConfigSpace) (dev : Device) (regAddr : BitVec 8) : BitVec 32 :=
  config (dev.address regAddr)

/-- What `WriteConfReg` writes, and where. -/
def writeConfReg (dev : Device) (regAddr : BitVec 8) (value : BitVec 32) :
    BitVec 32 × BitVec 32 :=
  (dev.address regAddr, value)

/-- How `SetupMSI` returns, and what it has written, the oldest first. -/
structure Setup where
  found : Bool
  writes : List (BitVec 32 × BitVec 32)
  deriving DecidableEq

section Setup

variable (config : ConfigSpace) (dev : Device) (vector : BitVec 8)

/-- `Message Control` of the capability at an offset. -/
def msgCtrl (capPtr : BitVec 8) : BitVec 16 := (readConfReg config dev capPtr >>> 16).setWidth 16

/-- The register of a capability with another `Message Control`. -/
def newCtrlReg (capPtr : BitVec 8) (ctrl : BitVec 16) : BitVec 32 :=
  (readConfReg config dev capPtr &&& 0xFFFF) ||| ctrl.setWidth 32 <<< 16

/-- MSI-X is enabled, and its `Function Mask` cleared. -/
def enableMSIX (capPtr : BitVec 8) : Setup :=
  ⟨true, [writeConfReg dev capPtr (newCtrlReg config dev capPtr
    ((msgCtrl config dev capPtr ||| 1#16 <<< 15) &&& ~~~(1#16 <<< 14)))]⟩

/-- The offset of the MSI data behind that of the capability. -/
def msiDataOffset (capPtr : BitVec 8) : BitVec 8 :=
  if msgCtrl config dev capPtr &&& 1#16 <<< 7 ≠ 0 then 0x0C else 0x08

/-- MSI gets the address of the local APIC and the vector, and is enabled. -/
def enableMSI (capPtr : BitVec 8) : Setup :=
  ⟨true, writeConfReg dev (capPtr + 0x04) 0xFEE00000 ::
    ((if msgCtrl config dev capPtr &&& 1#16 <<< 7 ≠ 0 then
        [writeConfReg dev (capPtr + 0x08) 0, writeConfReg dev (capPtr + 0x0C) (vector.setWidth 32)]
      else [writeConfReg dev (capPtr + 0x08) (vector.setWidth 32)]) ++
    [writeConfReg dev capPtr (newCtrlReg config dev capPtr
      (msgCtrl config dev capPtr ||| 1#16 <<< 0))])⟩

def capId (capPtr : BitVec 8) : BitVec 8 := (readConfReg config dev capPtr).setWidth 8

def nextPtr (capPtr : BitVec 8) : BitVec 8 := (readConfReg config dev capPtr >>> 8).setWidth 8

/-- The loop over the capabilities, with a bound on its rounds. -/
def capLoop : Nat → BitVec 8 → Option Setup
  | 0, _ => none
  | n + 1, capPtr =>
    if capPtr ≠ 0 then
      if capId config dev capPtr = 0x11 then some (enableMSIX config dev capPtr)
      else if capId config dev capPtr = 0x05 then some (enableMSI config dev vector capPtr)
      else capLoop n (nextPtr config dev capPtr)
    else some ⟨false, []⟩

/-- Bit 4 of the status register. -/
def HasCapabilities : Prop := (readConfReg config dev 0x04 >>> 16).setWidth 16 &&& 1#16 <<< 4 ≠ 0

instance : Decidable (HasCapabilities config dev) :=
  inferInstanceAs (Decidable ((readConfReg config dev 0x04 >>> 16).setWidth 16 &&& 1#16 <<< 4 ≠ 0))

/-- The `Capabilities Pointer`. -/
def capPtr : BitVec 8 := (readConfReg config dev 0x34).setWidth 8

/-- `SetupMSI`, with a bound on the rounds of its loop. -/
def setupMSI (rounds : Nat) : Option Setup :=
  if HasCapabilities config dev then capLoop config dev vector rounds (capPtr config dev)
  else some ⟨false, []⟩

/-- What the walk makes of an offset. -/
def capOut (capPtr : BitVec 8) : Option Setup :=
  if capPtr = 0 then some ⟨false, []⟩
  else if capId config dev capPtr = 0x11 then some (enableMSIX config dev capPtr)
  else if capId config dev capPtr = 0x05 then some (enableMSI config dev vector capPtr)
  else none

/-- The walk stops at the end of the list, at MSI-X and at MSI. -/
def Stops (capPtr : BitVec 8) : Prop :=
  capPtr = 0 ∨ capId config dev capPtr = 0x11 ∨ capId config dev capPtr = 0x05

end Setup

theorem toNat_and_252 (r : BitVec 8) : (r &&& 0xFC).toNat = r.toNat / 4 * 4 := by
  revert r
  decide +kernel

/-- The fields of an address do not overlap. -/
theorem Device.toNat_address (dev : Device) (r : BitVec 8) :
    (dev.address r).toNat = 0x80000000 + dev.bus.toNat * 65536 + dev.device.toNat * 2048 +
      dev.function.toNat * 256 + r.toNat / 4 * 4 := by
  have hbus := dev.bus.isLt
  have hdevice := dev.device_lt
  have hfunction := dev.function_lt
  have hr := r.isLt
  have hor {a b i : Nat} (hb : b < 2 ^ i) : a <<< i ||| b = a * 2 ^ i + b := by
    rw [← Nat.shiftLeft_add_eq_or_of_lt hb, Nat.shiftLeft_eq]
  have hshift (x : BitVec 8) {i : Nat} (hi : i ≤ 16) :
      (x.setWidth 32 <<< i).toNat = x.toNat <<< i := by
    have hx := x.isLt
    have hpow : 2 ^ i ≤ 2 ^ 16 := Nat.pow_le_pow_right (by decide) hi
    have hmul : x.toNat * 2 ^ i ≤ 255 * 2 ^ 16 := Nat.mul_le_mul (by omega) hpow
    rw [BitVec.toNat_shiftLeft, BitVec.toNat_setWidth,
      Nat.mod_eq_of_lt (by omega : x.toNat < 2 ^ 32), Nat.shiftLeft_eq,
      Nat.mod_eq_of_lt (by omega)]
  rw [Device.address, makeAddress, BitVec.toNat_or, BitVec.toNat_or, BitVec.toNat_or,
    BitVec.toNat_or, hshift _ (by decide), hshift _ (by decide), hshift _ (by decide),
    BitVec.toNat_setWidth, toNat_and_252, Nat.mod_eq_of_lt (by omega : r.toNat / 4 * 4 < 2 ^ 32),
    show (1#32 <<< 31).toNat = 1 <<< 31 from rfl, Nat.or_assoc, Nat.or_assoc,
    Nat.or_assoc, hor (a := dev.function.toNat) (by omega),
    hor (a := dev.device.toNat) (by omega), hor (a := dev.bus.toNat) (by omega),
    hor (a := 1) (by omega)]
  omega

/-- Two devices have no register in common, and a device has one for each four offsets. -/
theorem Device.address_eq_iff {dev dev' : Device} {r r' : BitVec 8} :
    dev.address r = dev'.address r' ↔ dev = dev' ∧ r.toNat / 4 = r'.toNat / 4 := by
  have hdevice := dev.device_lt
  have hfunction := dev.function_lt
  have hdevice' := dev'.device_lt
  have hfunction' := dev'.function_lt
  have hr := r.isLt
  have hr' := r'.isLt
  rw [BitVec.toNat_inj.symm, Device.toNat_address, Device.toNat_address]
  constructor
  · intro h
    have hbus : dev.bus = dev'.bus := BitVec.eq_of_toNat_eq (by omega)
    have hdev : dev.device = dev'.device := BitVec.eq_of_toNat_eq (by omega)
    have hfun : dev.function = dev'.function := BitVec.eq_of_toNat_eq (by omega)
    refine ⟨?_, by omega⟩
    cases dev
    cases dev'
    simp_all only
  · rintro ⟨rfl, hreg⟩
    rw [hreg]

/-- Offsets by different multiples of four lead to different registers. -/
theorem Device.address_add_ne (dev : Device) (r : BitVec 8) {k l : BitVec 8}
    (hk : k.toNat % 4 = 0) (hl : l.toNat % 4 = 0) (hne : k ≠ l) :
    dev.address (r + k) ≠ dev.address (r + l) := by
  intro heq
  have hr := r.isLt
  have hklt := k.isLt
  have hllt := l.isLt
  have hsame := (Device.address_eq_iff.mp heq).2
  rw [BitVec.toNat_add, BitVec.toNat_add] at hsame
  exact hne (BitVec.eq_of_toNat_eq (by omega))

section Registers

variable {config : ConfigSpace} {dev dev' : Device} {vector : BitVec 8} {capPtr : BitVec 8}
  {r : Setup} {k n : Nat}

/-- All writes of a setup are to registers of the device. -/
theorem replay_other {ws : List (BitVec 32 × BitVec 32)} (h : ∀ w ∈ ws, ∃ r, w.1 = dev.address r)
    (hne : dev' ≠ dev) (r : BitVec 8) :
    readConfReg (replay ws config) dev' r = readConfReg config dev' r := by
  refine Logged.replay_of_forall_ne (fun w hw heq => ?_) config
  obtain ⟨r', hr'⟩ := h w hw
  rw [hr', Device.address_eq_iff] at heq
  exact hne heq.1.symm

/-- The identifier and the link of a capability stay, and its `Message Control` is the new one. -/
theorem newCtrlReg_parts (ctrl : BitVec 16) :
    (newCtrlReg config dev capPtr ctrl).setWidth 16 = (readConfReg config dev capPtr).setWidth 16 ∧
      (newCtrlReg config dev capPtr ctrl >>> 16).setWidth 16 = ctrl := by
  have hlow : ∀ i, ∀ h : i < 16, (0xFFFF#16)[i] = true := by decide
  have hhigh : ∀ i, ∀ h : i < 16, (0xFFFF#32)[16 + i] = false := by decide
  rw [newCtrlReg]
  constructor
  · ext i hi
    simp [hlow i hi]
  · ext i hi
    simp [hhigh i hi, show 16 + i < 32 by omega, show i < 32 by omega,
      BitVec.getLsbD_eq_getElem hi]

/-- MSI-X at an offset is enabled, and nothing else of its register is changed. -/
structure EnabledMSIX (before after : ConfigSpace) (dev : Device) (capPtr : BitVec 8) : Prop where
  header : (readConfReg after dev capPtr).setWidth 16 = (readConfReg before dev capPtr).setWidth 16
  control : msgCtrl after dev capPtr =
    (msgCtrl before dev capPtr ||| 1#16 <<< 15) &&& ~~~(1#16 <<< 14)

/-- MSI at an offset sends the vector to the local APIC. -/
structure EnabledMSI (before after : ConfigSpace) (dev : Device) (vector capPtr : BitVec 8) :
    Prop where
  header : (readConfReg after dev capPtr).setWidth 16 = (readConfReg before dev capPtr).setWidth 16
  control : msgCtrl after dev capPtr = msgCtrl before dev capPtr ||| 1#16 <<< 0
  address : readConfReg after dev (capPtr + 0x04) = 0xFEE00000
  upper : msgCtrl before dev capPtr &&& 1#16 <<< 7 ≠ 0 → readConfReg after dev (capPtr + 0x08) = 0
  data : readConfReg after dev (capPtr + msiDataOffset before dev capPtr) = vector.setWidth 32

theorem enabledMSIX_replay (config : ConfigSpace) (dev : Device) (capPtr : BitVec 8) :
    EnabledMSIX config (replay (enableMSIX config dev capPtr).writes config) dev capPtr := by
  have hnew : readConfReg (replay (enableMSIX config dev capPtr).writes config) dev capPtr =
      newCtrlReg config dev capPtr
        ((msgCtrl config dev capPtr ||| 1#16 <<< 15) &&& ~~~(1#16 <<< 14)) :=
    Function.update_self ..
  obtain ⟨hheader, hcontrol⟩ := @newCtrlReg_parts config dev capPtr
    ((msgCtrl config dev capPtr ||| 1#16 <<< 15) &&& ~~~(1#16 <<< 14))
  refine ⟨?_, ?_⟩
  · rw [hnew, hheader]
  · rw [msgCtrl, hnew, hcontrol]

/-- The registers of a setup for MSI are all different. -/
theorem nodup_enableMSI (config : ConfigSpace) (dev : Device) (vector capPtr : BitVec 8) :
    ((enableMSI config dev vector capPtr).writes.map Prod.fst).Nodup := by
  have h0 {k : BitVec 8} (hk : k.toNat % 4 = 0) (hne : k ≠ 0) :
      dev.address (capPtr + k) ≠ dev.address capPtr := by
    have hadd := dev.address_add_ne capPtr hk (l := 0) rfl hne
    rwa [show capPtr + 0 = capPtr from BitVec.add_zero capPtr] at hadd
  have h4 := h0 (k := 0x04#8) rfl (by decide)
  have h8 := h0 (k := 0x08#8) rfl (by decide)
  have hC := h0 (k := 0x0C#8) rfl (by decide)
  have h48 := dev.address_add_ne capPtr (k := 0x04#8) (l := 0x08#8) rfl rfl (by decide)
  have h4C := dev.address_add_ne capPtr (k := 0x04#8) (l := 0x0C#8) rfl rfl (by decide)
  have h8C := dev.address_add_ne capPtr (k := 0x08#8) (l := 0x0C#8) rfl rfl (by decide)
  rw [enableMSI]
  split
  · simp [writeConfReg, h4, h8, hC, h48, h4C, h8C]
  · simp [writeConfReg, h4, h8, h48]

theorem enabledMSI_replay (config : ConfigSpace) (dev : Device) (vector capPtr : BitVec 8) :
    EnabledMSI config (replay (enableMSI config dev vector capPtr).writes config) dev vector
      capPtr := by
  have hread (r : BitVec 8) (v : BitVec 32)
      (hmem : (dev.address r, v) ∈ (enableMSI config dev vector capPtr).writes) :
      readConfReg (replay (enableMSI config dev vector capPtr).writes config) dev r = v :=
    replay_of_mem (nodup_enableMSI config dev vector capPtr) hmem config
  have hnew := hread capPtr
    (newCtrlReg config dev capPtr (msgCtrl config dev capPtr ||| 1#16 <<< 0))
    (by simp [enableMSI, writeConfReg])
  obtain ⟨hheader, hcontrol⟩ := @newCtrlReg_parts config dev capPtr
    (msgCtrl config dev capPtr ||| 1#16 <<< 0)
  refine ⟨?_, ?_, ?_, ?_, ?_⟩
  · rw [hnew, hheader]
  · rw [msgCtrl, hnew, hcontrol]
  · exact hread _ _ (List.mem_cons_self ..)
  · intro h64
    refine hread _ _ ?_
    rw [enableMSI, if_pos h64]
    simp [writeConfReg]
  · refine hread _ _ ?_
    rw [enableMSI, msiDataOffset]
    split
    · simp [writeConfReg]
    · simp [writeConfReg]

end Registers

section Walk

variable {config : ConfigSpace} {dev dev' : Device} {vector c : BitVec 8} {r : Setup} {k n : Nat}

theorem capLoop_eq_follow (n : Nat) (c : BitVec 8) : capLoop config dev vector n c =
    follow (nextPtr config dev) (capOut config dev vector) n c := by
  induction n generalizing c with
  | zero => rfl
  | succ n ih =>
    rw [capLoop, follow, capOut]
    by_cases h0 : c = 0
    · rw [if_neg (not_not.mpr h0), if_pos h0]
    · rw [if_pos h0, if_neg h0]
      split
      · rfl
      · split
        · rfl
        · exact ih _

theorem isSome_capOut : (capOut config dev vector c).isSome ↔ Stops config dev c := by
  rw [capOut, Stops]
  split
  · simp_all
  · split
    · simp_all
    · split <;> simp_all

/-- There are 255 offsets to walk on from. -/
theorem capLoop_256 : capLoop config dev vector 256 c = some r ↔
    ∃ k, EndsAt (nextPtr config dev) (capOut config dev vector) c k r := by
  rw [capLoop_eq_follow]
  refine follow_card (S := (Finset.range 255).image fun n => BitVec.ofNat 8 (n + 1))
    (fun j hj => ?_) (Finset.card_image_le.trans_lt (by rw [Finset.card_range]; decide))
  have hnone := hj j le_rfl
  generalize (nextPtr config dev)^[j] c = x at hnone ⊢
  have h0 : x ≠ 0 := by
    rintro rfl
    rw [capOut, if_pos rfl] at hnone
    cases hnone
  have hpos : x.toNat ≠ 0 := fun h => h0 (BitVec.eq_of_toNat_eq h)
  have hx := x.isLt
  refine Finset.mem_image.mpr ⟨x.toNat - 1, Finset.mem_range.mpr (by omega), ?_⟩
  rw [Nat.sub_add_cancel (by omega), BitVec.ofNat_toNat, BitVec.setWidth_eq]

/-- All that is written goes to the device that is set up. -/
theorem writes_of_capOut (h : capOut config dev vector c = some r) :
    ∀ w ∈ r.writes, ∃ reg, w.1 = dev.address reg := by
  have hwrite (reg : BitVec 8) (value : BitVec 32) :
      ∃ reg', (writeConfReg dev reg value).1 = dev.address reg' := ⟨reg, rfl⟩
  rw [capOut] at h
  split at h
  · cases h
    exact nofun
  · split at h
    · cases h
      simp [enableMSIX, hwrite]
    · split at h
      · cases h
        rw [enableMSI]
        split
        · simp [hwrite]
        · simp [hwrite]
      · cases h

/-- The walk comes to this offset, and stops there. -/
def FirstStop (config : ConfigSpace) (dev : Device) (c : BitVec 8) : Prop :=
  ∃ k, (nextPtr config dev)^[k] (capPtr config dev) = c ∧ Stops config dev c ∧
    ∀ j < k, ¬ Stops config dev ((nextPtr config dev)^[j] (capPtr config dev))

/-- What a call does, by the offset where its walk stops. -/
inductive Done (config : ConfigSpace) (dev : Device) (vector c : BitVec 8) : Setup → Prop
  | none (h0 : c = 0) : Done config dev vector c ⟨false, []⟩
  | msix {r : Setup} (h0 : c ≠ 0) (hid : capId config dev c = 0x11) (hfound : r.found = true)
      (henabled : EnabledMSIX config (replay r.writes config) dev c) : Done config dev vector c r
  | msi {r : Setup} (h0 : c ≠ 0) (hid : capId config dev c = 0x05) (hfound : r.found = true)
      (henabled : EnabledMSI config (replay r.writes config) dev vector c) :
      Done config dev vector c r

theorem done_of_capOut (h : capOut config dev vector c = some r) : Done config dev vector c r := by
  rw [capOut] at h
  split at h
  · rename_i h0
    cases h
    exact .none h0
  · rename_i h0
    split at h
    · rename_i hid
      cases h
      exact .msix h0 hid rfl (enabledMSIX_replay config dev c)
    · split at h
      · rename_i hid
        cases h
        exact .msi h0 hid rfl (enabledMSI_replay config dev vector c)
      · cases h

theorem capLoop_256_eq_none_iff : capLoop config dev vector 256 c = none ↔
    ∀ k, ¬ Stops config dev ((nextPtr config dev)^[k] c) := by
  have hends := @exists_endsAt_iff _ _ (nextPtr config dev) (capOut config dev vector) c
  simp only [isSome_capOut] at hends
  rw [Option.eq_none_iff_forall_ne_some, ← not_exists, ← not_exists, ← hends]
  refine not_congr ⟨?_, ?_⟩
  · rintro ⟨r, h⟩
    obtain ⟨k, hk⟩ := capLoop_256.mp h
    exact ⟨k, r, hk⟩
  · rintro ⟨k, r, hk⟩
    exact ⟨r, capLoop_256.mpr ⟨k, hk⟩⟩

theorem firstStop_of_endsAt
    (h : EndsAt (nextPtr config dev) (capOut config dev vector) (capPtr config dev) k r) :
    FirstStop config dev ((nextPtr config dev)^[k] (capPtr config dev)) := by
  refine ⟨k, rfl, isSome_capOut.mp (Option.isSome_of_eq_some h.1), fun j hj hstop => ?_⟩
  have hsome := (@isSome_capOut config dev vector _).mpr hstop
  rw [h.2 j hj] at hsome
  cases hsome

/-- The loop ends within 256 rounds or never, and it does not end exactly when the links of the
device go on without a stop. When it ends, the registers of the other devices are as before, and
the first capability of the two kinds is enabled. -/
theorem msi_setup (config : ConfigSpace) (dev : Device) (vector : BitVec 8) :
    (∀ rounds r, setupMSI config dev vector rounds = some r →
        setupMSI config dev vector 256 = some r) ∧
      (setupMSI config dev vector 256 = none ↔ HasCapabilities config dev ∧
        ∀ k, ¬ Stops config dev ((nextPtr config dev)^[k] (capPtr config dev))) ∧
      ∀ r, setupMSI config dev vector 256 = some r →
        (∀ dev' ≠ dev, ∀ reg,
          readConfReg (replay r.writes config) dev' reg = readConfReg config dev' reg) ∧
        if HasCapabilities config dev then ∃ c, FirstStop config dev c ∧ Done config dev vector c r
        else r = ⟨false, []⟩ := by
  by_cases hhas : HasCapabilities config dev
  · have hloop (n : Nat) :
        setupMSI config dev vector n = capLoop config dev vector n (capPtr config dev) :=
      if_pos hhas
    simp only [hloop, if_pos hhas, capLoop_256_eq_none_iff]
    refine ⟨fun rounds r h => ?_, (and_iff_right hhas).symm, fun r h => ?_⟩
    · rw [capLoop_eq_follow, follow_eq_some_iff] at h
      obtain ⟨k, -, hk⟩ := h
      exact capLoop_256.mpr ⟨k, hk⟩
    · obtain ⟨k, hk⟩ := capLoop_256.mp h
      exact ⟨fun dev' hne reg => replay_other (writes_of_capOut hk.1) hne reg, _,
        firstStop_of_endsAt hk, done_of_capOut hk.1⟩
  · have hnone (n : Nat) : setupMSI config dev vector n = some ⟨false, []⟩ := if_neg hhas
    simp only [hnone, if_neg hhas]
    refine ⟨fun _ _ h => h, iff_of_false nofun fun h => hhas h.1, ?_⟩
    rintro _ ⟨⟩
    exact ⟨fun _ _ _ => rfl, rfl⟩

/-- A capability of another kind that links to itself is walked over for ever. -/
example : setupMSI (fun _ => 0x00104040) ⟨0, 3, 0, by decide, by decide⟩ 0x50 256 = none := by
  decide +kernel

end Walk

end Sylphia.PCI
