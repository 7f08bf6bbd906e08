import Mathlib.Data.Nat.Digits.Lemmas

/-!
# Numbers written with digits

Digits stand for a number with the most significant of them first, and a number has at least one.
A text is read as a number digit by digit.
-/

namespace Numeral

/-- The number with these digits. -/
def value (base : Nat) (digits : List Nat) : Nat := digits.foldl (fun n d => n * base + d) 0

/-- Words of `w` bits compute the number up to its lowest bits. -/
theorem foldl_ofNat (w base : Nat) (digits : List Nat) (n : Nat) :
    digits.foldl (fun x d => x * BitVec.ofNat w base + BitVec.ofNat w d) (BitVec.ofNat w n) =
      BitVec.ofNat w (digits.foldl (fun n d => n * base + d) n) := by
  induction digits generalizing n with
  | nil => rfl
  | cons d digits ih =>
    rw [List.foldl_cons, List.foldl_cons, ← BitVec.ofNat_mul, ← BitVec.ofNat_add, ih]

/-- The digits of a number, the least significant first. -/
def lowDigits (base v : Nat) : List Nat := v % base :: Nat.digits base (v / base)

/-- The digits of a number. -/
def digits (base v : Nat) : List Nat := (lowDigits base v).reverse

variable {base v d : Nat}

theorem lowDigits_of_lt (h : v < base) : lowDigits base v = [v] := by
  rw [lowDigits, Nat.div_eq_of_lt h, Nat.mod_eq_of_lt h, Nat.digits_zero]

theorem lowDigits_of_le (hbase : 2 ≤ base) (h : base ≤ v) :
    lowDigits base v = v % base :: lowDigits base (v / base) := by
  have hpos : 0 < v / base := Nat.div_pos h (by omega)
  rw [lowDigits, Nat.digits_def' hbase hpos]
  rfl

theorem lt_of_mem_lowDigits (hbase : 2 ≤ base) (hd : d ∈ lowDigits base v) : d < base := by
  rcases List.mem_cons.mp hd with rfl | hd
  · exact Nat.mod_lt v (by omega)
  · exact Nat.digits_lt_base hbase hd

/-- In base 10 or more, words of 64 bits have at most 20 digits. -/
theorem length_lowDigits_le (hbase : 10 ≤ base) (hv : v < 2 ^ 64) :
    (lowDigits base v).length ≤ 20 := by
  have hlt : v / base < base ^ 19 :=
    calc v / base
      _ ≤ v / 10 := Nat.div_le_div_left hbase (by decide)
      _ < 10 ^ 19 := by omega
      _ ≤ base ^ 19 := Nat.pow_le_pow_left hbase 19
  rw [lowDigits, List.length_cons]
  exact Nat.succ_le_succ ((Nat.digits_length_le_iff (by omega) _).mpr hlt)

theorem value_eq_ofDigits (base : Nat) (ds : List Nat) :
    value base ds = Nat.ofDigits base ds.reverse := by
  rw [Nat.ofDigits_eq_foldr, List.foldr_reverse, value]
  congr 1
  funext n d
  rw [Nat.cast_id, Nat.add_comm, Nat.mul_comm]

theorem value_digits (base v : Nat) : value base (digits base v) = v := by
  rw [value_eq_ofDigits, digits, List.reverse_reverse, lowDigits, Nat.ofDigits_cons,
    Nat.ofDigits_digits]
  exact Nat.mod_add_div v base

theorem value_lt (hbase : 2 ≤ base) {ds : List Nat} (hds : ∀ d ∈ ds, d < base) :
    value base ds < base ^ ds.length := by
  rw [value_eq_ofDigits, ← List.length_reverse]
  exact Nat.ofDigits_lt_base_pow_length hbase fun d hd => hds d (List.mem_reverse.mp hd)

/-- Zeros in front make no difference. -/
theorem value_replicate_append (n : Nat) (ds : List Nat) :
    value base (List.replicate n 0 ++ ds) = value base ds := by
  induction n with
  | zero => rfl
  | succ n ih =>
    rw [List.replicate_succ, List.cons_append, value, List.foldl_cons, Nat.zero_mul]
    exact ih

/-- The last `n` digits of a number, zeros included, stand for what is left of it. -/
theorem value_map_range (base v n : Nat) :
    value base ((List.range n).reverse.map fun i => v / base ^ i % base) = v % base ^ n := by
  rw [value_eq_ofDigits, List.map_reverse, List.reverse_reverse]
  induction n with
  | zero => rw [List.range_zero, List.map_nil, Nat.ofDigits_nil, pow_zero, Nat.mod_one]
  | succ n ih =>
    rw [List.range_succ, List.map_append, Nat.ofDigits_append, ih, List.length_map,
      List.length_range, List.map_singleton, Nat.ofDigits_singleton, Nat.mod_pow_succ]

theorem digits_ne_nil (base v : Nat) : digits base v ≠ [] :=
  fun h => List.cons_ne_nil _ _ (List.reverse_eq_nil_iff.mp h)

theorem lt_of_mem_digits (hbase : 2 ≤ base) (hd : d ∈ digits base v) : d < base :=
  lt_of_mem_lowDigits hbase (List.mem_reverse.mp hd)

/-- No digits of the number are fewer. -/
theorem length_digits_le (hbase : 2 ≤ base) {n : Nat} (hv : v < base ^ (n + 1)) :
    (digits base v).length ≤ n + 1 := by
  have hlt : v / base < base ^ n := Nat.div_lt_of_lt_mul (by rwa [pow_succ'] at hv)
  rw [digits, List.length_reverse, lowDigits, List.length_cons]
  exact Nat.succ_le_succ ((Nat.digits_length_le_iff hbase _).mpr hlt)

/-- Only the number zero begins with a zero. -/
theorem digits_of_head (h : (digits base v).head? = some 0) : digits base v = [0] := by
  rw [digits, List.head?_reverse, lowDigits] at h
  rw [digits, lowDigits]
  cases hrest : Nat.digits base (v / base) with
  | nil =>
    rw [hrest] at h
    have hzero : v % base = 0 := Option.some.inj h
    rw [hzero]
    rfl
  | cons d ds =>
    have hquot : v / base ≠ 0 := fun h0 => by
      rw [h0, Nat.digits_zero] at hrest
      cases hrest
    have hlast := Nat.getLast_digit_ne_zero base hquot
    rw [hrest, List.getLast?_cons_cons] at h
    simp only [hrest] at hlast
    rw [List.getLast?_eq_some_getLast (List.cons_ne_nil d ds)] at h
    exact absurd (Option.some.inj h) hlast

/-- What a character stands for as a digit, a letter of either case from ten on. -/
def charValue (c : BitVec 8) : Option Nat :=
  if 0x30 ≤ c.toNat ∧ c.toNat ≤ 0x39 then some (c.toNat - 0x30)
  else if 0x61 ≤ c.toNat ∧ c.toNat ≤ 0x7a then some (c.toNat - 0x61 + 10)
  else if 0x41 ≤ c.toNat ∧ c.toNat ≤ 0x5a then some (c.toNat - 0x41 + 10)
  else none

/-- The digit that a character stands for. -/
def digitOf (base : Nat) (c : BitVec 8) : Option Nat := (charValue c).filter (· < base)

/-- The number that a text stands for, which has a digit at least and nothing else. -/
def readNat (base : Nat) (s : List (BitVec 8)) : Option Nat :=
  if s = [] then none else (s.mapM (digitOf base)).map (value base)

/-- The number that a text stands for, which may have a minus in front. -/
def readInt (base : Nat) : List (BitVec 8) → Option Int
  | [] => none
  | c :: s =>
    if c = 0x2d then (readNat base s).map fun n : Nat => -(n : Int)
    else (readNat base (c :: s)).map fun n : Nat => (n : Int)

section

variable {s : List (BitVec 8)} {ds : List Nat}

theorem lt_of_digitOf {c : BitVec 8} (h : digitOf base c = some d) : d < base :=
  of_decide_eq_true (Option.filter_eq_some_iff.mp h).2

theorem forall_of_mapM (h : s.mapM (digitOf base) = some ds) :
    ds.length = s.length ∧ ∀ d ∈ ds, d < base := by
  induction s generalizing ds with
  | nil =>
    cases h
    exact ⟨rfl, fun d hd => absurd hd List.not_mem_nil⟩
  | cons c s ih =>
    rw [List.mapM_cons] at h
    obtain ⟨d, hd, h⟩ := Option.bind_eq_some_iff.mp h
    obtain ⟨ds', hds, h⟩ := Option.bind_eq_some_iff.mp h
    cases h
    obtain ⟨hlength, hlt⟩ := ih hds
    exact ⟨congrArg (· + 1) hlength, List.forall_mem_cons.mpr ⟨lt_of_digitOf hd, hlt⟩⟩

/-- Digits that are written as characters are read as they were. -/
theorem readNat_map {char : Nat → BitVec 8} (hchar : ∀ d < base, digitOf base (char d) = some d)
    (hne : ds ≠ []) (hds : ∀ d ∈ ds, d < base) :
    readNat base (ds.map char) = some (value base ds) := by
  have hread : (ds.map char).mapM (digitOf base) = some ds := by
    clear hne
    induction ds with
    | nil => rfl
    | cons d ds ih =>
      obtain ⟨hd, hds⟩ := List.forall_mem_cons.mp hds
      rw [List.map_cons, List.mapM_cons, hchar d hd, ih hds]
      rfl
  rw [readNat, if_neg (mt List.map_eq_nil_iff.mp hne), hread]
  rfl

/-- No text of a number is shorter than its digits. -/
theorem length_digits_le_of_readNat (hbase : 2 ≤ base) (h : readNat base s = some v) :
    (digits base v).length ≤ s.length := by
  unfold readNat at h
  split at h
  · cases h
  · next hne =>
    obtain ⟨ds, hds, rfl⟩ := Option.map_eq_some_iff.mp h
    obtain ⟨hlength, hlt⟩ := forall_of_mapM hds
    obtain ⟨c, s, rfl⟩ := List.exists_cons_of_ne_nil hne
    have hvalue := value_lt hbase hlt
    rw [hlength, List.length_cons] at hvalue
    exact length_digits_le hbase hvalue

theorem digitOf_minus (base : Nat) : digitOf base 0x2d = none := rfl

theorem digitOf_space (base : Nat) : digitOf base 0x20 = none := rfl

theorem readNat_cons_of_none {c : BitVec 8} (h : digitOf base c = none) (s : List (BitVec 8)) :
    readNat base (c :: s) = none := by
  rw [readNat, if_neg (List.cons_ne_nil c s), List.mapM_cons, h]
  rfl

/-- The sign of a number. -/
def sign (z : Int) : List (BitVec 8) := if z < 0 then [0x2d] else []

/-- With its sign in front, what is read as the magnitude is read as the number. -/
theorem readInt_sign_append {z : Int} (h : readNat base s = some z.natAbs) :
    readInt base (sign z ++ s) = some z := by
  cases s with
  | nil => cases h
  | cons c s =>
    rw [sign]
    split
    · next hneg =>
      rw [List.singleton_append, readInt, if_pos rfl, h, Option.map_some]
      exact congrArg some (by omega)
    · next hpos =>
      have hminus : c ≠ 0x2d := fun hc => by
        rw [hc, readNat_cons_of_none (digitOf_minus base)] at h
        cases h
      rw [List.nil_append, readInt, if_neg hminus, h, Option.map_some]
      exact congrArg some (by omega)

/-- No text of a number is shorter than its sign and its digits. -/
theorem length_le_of_readInt (hbase : 2 ≤ base) {z : Int} (h : readInt base s = some z) :
    (sign z).length + (digits base z.natAbs).length ≤ s.length := by
  cases s with
  | nil => cases h
  | cons c s =>
    rw [readInt] at h
    split at h
    · obtain ⟨n, hn, rfl⟩ := Option.map_eq_some_iff.mp h
      have hlength := length_digits_le_of_readNat hbase hn
      have hsign : (sign (-(n : Int))).length ≤ 1 := by
        rw [sign]
        split <;> decide
      rw [Int.natAbs_neg, Int.natAbs_natCast, List.length_cons]
      omega
    · obtain ⟨n, hn, rfl⟩ := Option.map_eq_some_iff.mp h
      have hlength := length_digits_le_of_readNat hbase hn
      rw [sign, if_neg (by omega), Int.natAbs_natCast, List.length_nil, Nat.zero_add]
      exact hlength

/-- A text that is read does not begin with a space. -/
theorem dropWhile_of_readInt {z : Int} (h : readInt base s = some z) :
    s.dropWhile (· = 0x20) = s := by
  cases s with
  | nil => rfl
  | cons c s =>
    refine List.dropWhile_cons_of_neg fun hc => ?_
    rw [of_decide_eq_true hc, readInt, if_neg (by decide),
      readNat_cons_of_none (digitOf_space base)] at h
    cases h

end

end Numeral
