import Mathlib.Data.BitVec

/-!
# Page table entries

The union `PageTableEntry` of `paging.hpp`: a 64-bit value with its bit fields. Only the
fields that the kernel reads or writes are named.
-/

namespace Sylphia

/-- `PageTableEntry`, by its `value`. -/
abbrev PageTableEntry := BitVec 64

namespace PageTableEntry

/-- `bits.present`, bit 0. -/
def present (e : PageTableEntry) : Bool := e.getLsbD 0

/-- `bits.read_write`, bit 1. -/
def readWrite (e : PageTableEntry) : Bool := e.getLsbD 1

/-- `bits.user_supervisor`, bit 2. -/
def userSupervisor (e : PageTableEntry) : Bool := e.getLsbD 2

/-- `bits.huge_page`, bit 7. -/
def hugePage (e : PageTableEntry) : Bool := e.getLsbD 7

/-- `bits.address`, bits 51 to 12: a frame number. -/
def address (e : PageTableEntry) : Nat := (e.extractLsb' 12 40).toNat

/-- Assign one bit. -/
def setBit (e : PageTableEntry) (i : Nat) (b : Bool) : PageTableEntry :=
  if b then e ||| BitVec.twoPow 64 i else e &&& ~~~BitVec.twoPow 64 i

/-- `bits.present = b`. -/
def setPresent (e : PageTableEntry) (b : Bool) : PageTableEntry := setBit e 0 b

/-- `bits.read_write = b`. -/
def setReadWrite (e : PageTableEntry) (b : Bool) : PageTableEntry := setBit e 1 b

/-- `bits.user_supervisor = b`. -/
def setUserSupervisor (e : PageTableEntry) (b : Bool) : PageTableEntry := setBit e 2 b

/-- `bits.huge_page = b`. -/
def setHugePage (e : PageTableEntry) (b : Bool) : PageTableEntry := setBit e 7 b

/-- The bits of the `address` field. -/
def addressMask : BitVec 64 := 0x000FFFFFFFFFF000#64

/-- `SetAddress`. -/
def setAddress (e : PageTableEntry) (addr : Nat) : PageTableEntry :=
  (e &&& ~~~addressMask) ||| ((BitVec.ofNat 40 (addr >>> 12)).zeroExtend 64 <<< 12)

/-- `GetAddress`. -/
def getAddress (e : PageTableEntry) : Nat := e.address <<< 12

variable (e : PageTableEntry)

theorem getLsbD_setBit {i : Nat} (hi : i < 64) (b : Bool) (j : Nat) :
    (setBit e i b).getLsbD j = if j = i then b else e.getLsbD j := by
  unfold setBit
  by_cases hj : j = i
  · subst hj
    cases b <;> simp [hi]
  · have hne : ¬i = j := fun h => hj h.symm
    cases b
    · by_cases hlt : j < 64
      · simp [hj, hlt]
      · simp [hj, BitVec.getLsbD_of_ge _ _ (Nat.le_of_not_lt hlt)]
    · simp [hj, hne]

private theorem getLsbD_addressMask (j : Nat) :
    addressMask.getLsbD j = decide (12 ≤ j ∧ j < 52) := by
  by_cases hj : j < 64
  · have hall : ∀ k < 64, addressMask.getLsbD k = decide (12 ≤ k ∧ k < 52) := by decide
    exact hall j hj
  · rw [BitVec.getLsbD_of_ge _ _ (Nat.le_of_not_lt hj)]
    symm
    rw [decide_eq_false_iff_not]
    omega

theorem getLsbD_setAddress (addr j : Nat) :
    (setAddress e addr).getLsbD j =
      if 12 ≤ j ∧ j < 52 then (addr >>> 12).testBit (j - 12) else e.getLsbD j := by
  unfold setAddress
  simp only [BitVec.getLsbD_or, BitVec.getLsbD_and, BitVec.getLsbD_not, getLsbD_addressMask,
    BitVec.getLsbD_shiftLeft, BitVec.getLsbD_setWidth, BitVec.getLsbD_ofNat,
    BitVec.truncate_eq_setWidth]
  by_cases hj : 12 ≤ j ∧ j < 52
  · obtain ⟨hlo, hhi⟩ := hj
    have h64 : j < 64 := by omega
    have h40 : j - 12 < 40 := by omega
    simp [hlo, hhi, h64, h40, Nat.not_lt_of_le hlo]
    omega
  · by_cases hlt : j < 64
    · have hout : j < 12 ∨ 52 ≤ j := by omega
      rcases hout with h | h
      · simp [hlt, h, Nat.not_le_of_lt h]
      · have h40 : ¬j - 12 < 40 := by omega
        have h52 : ¬j < 52 := by omega
        simp [hlt, h40, h52]
    · have h64 : 64 ≤ j := Nat.le_of_not_lt hlt
      simp [hj, hlt, BitVec.getLsbD_of_ge e j h64]

/-- The fields of an entry that a walk depends on. -/
@[ext]
structure Fields where
  present : Bool
  readWrite : Bool
  userSupervisor : Bool
  hugePage : Bool
  address : Nat
  deriving DecidableEq, Repr

/-- The fields of an entry. -/
def fields (e : PageTableEntry) : Fields where
  present := e.present
  readWrite := e.readWrite
  userSupervisor := e.userSupervisor
  hugePage := e.hugePage
  address := e.address

private theorem address_setBit {i : Nat} (hi : i < 12) (b : Bool) :
    (setBit e i b).address = e.address := by
  unfold address
  congr 1
  apply BitVec.eq_of_getLsbD_eq
  intro j hj
  have hne : ¬12 + j = i := by omega
  simp [getLsbD_setBit e (by omega : i < 64), hne]

private theorem address_setAddress (addr : Nat) :
    (setAddress e addr).address = (addr >>> 12) % 2 ^ 40 := by
  rw [address, ← BitVec.toNat_ofNat (addr >>> 12) 40]
  congr 1
  apply BitVec.eq_of_getLsbD_eq
  intro j hj
  have hin : 12 ≤ 12 + j ∧ 12 + j < 52 := by omega
  rw [BitVec.getLsbD_extractLsb', getLsbD_setAddress, if_pos hin, BitVec.getLsbD_ofNat,
    Nat.add_sub_cancel_left]

theorem address_lt : e.address < 2 ^ 40 := (e.extractLsb' 12 40).isLt

private theorem fields_setBit {i : Nat} (hi : i < 12) (b : Bool) :
    fields (setBit e i b) =
      ⟨if 0 = i then b else e.present, if 1 = i then b else e.readWrite,
        if 2 = i then b else e.userSupervisor, if 7 = i then b else e.hugePage, e.address⟩ := by
  simp only [fields, present, readWrite, userSupervisor, hugePage,
    getLsbD_setBit e (by omega : i < 64), address_setBit e hi]

@[simp] theorem fields_setPresent (b : Bool) :
    fields (setPresent e b) = { fields e with present := b } :=
  fields_setBit e (by decide) b

@[simp] theorem fields_setReadWrite (b : Bool) :
    fields (setReadWrite e b) = { fields e with readWrite := b } :=
  fields_setBit e (by decide) b

@[simp] theorem fields_setUserSupervisor (b : Bool) :
    fields (setUserSupervisor e b) = { fields e with userSupervisor := b } :=
  fields_setBit e (by decide) b

@[simp] theorem fields_setHugePage (b : Bool) :
    fields (setHugePage e b) = { fields e with hugePage := b } :=
  fields_setBit e (by decide) b

@[simp] theorem fields_setAddress (addr : Nat) :
    fields (setAddress e addr) = { fields e with address := (addr >>> 12) % 2 ^ 40 } := by
  have hlow {j : Nat} (hj : j < 12) : (setAddress e addr).getLsbD j = e.getLsbD j := by
    rw [getLsbD_setAddress, if_neg (by omega)]
  ext <;> simp only [fields, present, readWrite, userSupervisor, hugePage, address_setAddress] <;>
    exact hlow (by decide)

/-- `value |= other.value & 0xFFF`, for an entry whose low bits are clear. -/
theorem fields_or_flags (other : PageTableEntry) (h : ∀ j < 12, e.getLsbD j = false) :
    fields (e ||| (other &&& 0xFFF#64)) = { fields other with address := e.address } := by
  have hmask : ∀ j < 12, (0xFFF#64).getLsbD j = true := by decide
  have hlow {j : Nat} (hj : j < 12) :
      (e ||| (other &&& 0xFFF#64)).getLsbD j = other.getLsbD j := by
    rw [BitVec.getLsbD_or, BitVec.getLsbD_and, h j hj, hmask j hj, Bool.false_or, Bool.and_true]
  have haddr : (e ||| (other &&& 0xFFF#64)).address = e.address := by
    unfold address
    congr 1
    apply BitVec.eq_of_getLsbD_eq
    intro j hj
    have hhigh : ∀ k < 40, (0xFFF#64).getLsbD (12 + k) = false := by decide
    simp only [BitVec.getLsbD_extractLsb', BitVec.getLsbD_or, BitVec.getLsbD_and, hhigh j hj,
      Bool.and_false, Bool.or_false]
  ext <;> simp only [fields, present, readWrite, userSupervisor, hugePage, haddr] <;>
    exact hlow (by decide)

@[simp] theorem fields_zero : fields 0#64 = ⟨false, false, false, false, 0⟩ := by
  simp [fields, present, readWrite, userSupervisor, hugePage, address]

end PageTableEntry

end Sylphia
