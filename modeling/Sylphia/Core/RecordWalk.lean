import Mathlib.Data.List.Basic

/-!
# Walks over records

Records lie one behind the other, and each says itself how wide it is. A loop looks at one
record after the other while its position is below a limit; it may return early. Whether it
ends, and where it reads, is decided by the records it comes to.
-/

/-- The body of such a loop over records that stay as they are. -/
structure RecordWalk (S R : Type*) where
  /-- The width of the record at a position. -/
  width : Nat → Nat
  /-- The positions that a turn reads. -/
  reads : S → Nat → List Nat
  /-- A turn returns, or goes on behind the record. -/
  turn : S → Nat → R ⊕ S

namespace RecordWalk

variable {S R : Type*} (W : RecordWalk S R) (limit : Nat)

/-- The loop for so many looks at its condition: what it has read, and what it has returned or
ended with. -/
def run : Nat → S → Nat → Option (List Nat × (R ⊕ S))
  | 0, _, _ => none
  | n + 1, s, p =>
    if p < limit then
      match W.turn s p with
      | .inl r => some (W.reads s p, .inl r)
      | .inr s' => (run n s' (p + W.width p)).map fun x => (W.reads s p ++ x.1, x.2)
    else some ([], .inr s)

/-- From a state and a position the loop comes to a record in a state. -/
inductive Visits : S → Nat → S → Nat → Prop
  | here {s : S} {p : Nat} : p < limit → Visits s p s p
  | later {s s' t : S} {p q : Nat} : p < limit → W.turn s p = .inr s' →
      Visits s' (p + W.width p) t q → Visits s p t q

/-- Each record that the loop comes to is read below `size`, and only one that the loop returns
at may be empty. -/
def Fits (size : Nat) (s : S) (p : Nat) : Prop :=
  ∀ t q, W.Visits limit s p t q →
    (∀ o ∈ W.reads t q, o < size) ∧ ∀ t', W.turn t q = .inr t' → 0 < W.width q

/-- A second turn at the same record changes nothing more. -/
def Settles : Prop := ∀ s s' p, W.turn s p = .inr s' → W.turn s' p = .inr s'

variable {W limit} {size n p : Nat} {s s' : S} {r : R}

theorem run_of_le (hp : limit ≤ p) : W.run limit (n + 1) s p = some ([], .inr s) :=
  if_neg (Nat.not_lt.mpr hp)

theorem run_of_return (hp : p < limit) (hturn : W.turn s p = .inl r) :
    W.run limit (n + 1) s p = some (W.reads s p, .inl r) := by
  rw [run, if_pos hp, hturn]

theorem run_of_turn (hp : p < limit) (hturn : W.turn s p = .inr s') :
    W.run limit (n + 1) s p =
      (W.run limit n s' (p + W.width p)).map fun x => (W.reads s p ++ x.1, x.2) := by
  rw [run, if_pos hp, hturn]

theorem fits_of_le (hp : limit ≤ p) : W.Fits limit size s p := by
  intro t q hvisit
  cases hvisit with
  | here hlt => exact absurd hlt (Nat.not_lt.mpr hp)
  | later hlt => exact absurd hlt (Nat.not_lt.mpr hp)

theorem fits_of_return (hturn : W.turn s p = .inl r) (hreads : ∀ o ∈ W.reads s p, o < size) :
    W.Fits limit size s p := by
  intro t q hvisit
  cases hvisit with
  | here _ =>
    refine ⟨hreads, fun t' hnext => ?_⟩
    rw [hturn] at hnext
    cases hnext
  | later _ hnext =>
    rw [hturn] at hnext
    cases hnext

theorem fits_of_turn (hturn : W.turn s p = .inr s') (hreads : ∀ o ∈ W.reads s p, o < size)
    (hwidth : 0 < W.width p) (hrest : W.Fits limit size s' (p + W.width p)) :
    W.Fits limit size s p := by
  intro t q hvisit
  cases hvisit with
  | here _ => exact ⟨hreads, fun _ _ => hwidth⟩
  | later _ hnext hvisit =>
    rw [hturn] at hnext
    cases hnext
    exact hrest t q hvisit

theorem Fits.rest (h : W.Fits limit size s p) (hp : p < limit) (hturn : W.turn s p = .inr s') :
    W.Fits limit size s' (p + W.width p) :=
  fun t q hvisit => h t q (.later hp hturn hvisit)

/-- At an empty record the loop never ends. -/
theorem run_stuck (hp : p < limit) (hwidth : W.width p = 0) (hturn : W.turn s p = .inr s) :
    W.run limit n s p = none := by
  induction n with
  | zero => rfl
  | succ n ih => rw [run_of_turn hp hturn, hwidth, Nat.add_zero, ih, Option.map_none]

/-- A loop that ends after reading below `size` has met records that fit. -/
theorem fits_of_run (hsettles : W.Settles) {reads : List Nat} {result : R ⊕ S}
    (hrun : W.run limit n s p = some (reads, result)) (hreads : ∀ o ∈ reads, o < size) :
    W.Fits limit size s p := by
  induction n generalizing s p reads with
  | zero => cases hrun
  | succ n ih =>
    rcases Nat.lt_or_ge p limit with hp | hp
    · cases hturn : W.turn s p with
      | inl r =>
        rw [run_of_return hp hturn, Option.some.injEq, Prod.mk.injEq] at hrun
        exact fits_of_return hturn (by rwa [hrun.1])
      | inr s' =>
        rw [run_of_turn hp hturn, Option.map_eq_some_iff] at hrun
        obtain ⟨⟨reads', result'⟩, hrest, heq⟩ := hrun
        obtain ⟨rfl, rfl⟩ := Prod.mk.inj heq
        refine fits_of_turn hturn (fun o ho => hreads o (List.mem_append_left _ ho)) ?_
          (ih hrest fun o ho => hreads o (List.mem_append_right _ ho))
        -- An empty record would be met again and again.
        by_contra hwidth
        have hzero : W.width p = 0 := Nat.eq_zero_of_not_pos hwidth
        rw [hzero, Nat.add_zero, run_stuck hp hzero (hsettles s s' p hturn)] at hrest
        cases hrest
    · exact fits_of_le hp

/-- Over records that fit the loop ends, and reads below `size`. -/
theorem Fits.run (h : W.Fits limit size s p) : ∃ n reads result,
    W.run limit n s p = some (reads, result) ∧ ∀ o ∈ reads, o < size := by
  induction hd : limit - p using Nat.strongRecOn generalizing s p with
  | ind d ih =>
    rcases Nat.lt_or_ge p limit with hp | hp
    · obtain ⟨hreads, hwidth⟩ := h s p (.here hp)
      cases hturn : W.turn s p with
      | inl r => exact ⟨1, _, _, run_of_return hp hturn, hreads⟩
      | inr s' =>
        have hpos := hwidth s' hturn
        obtain ⟨n, reads, result, hrun, hrest⟩ :=
          ih (limit - (p + W.width p)) (by omega) (h.rest hp hturn) rfl
        refine ⟨n + 1, W.reads s p ++ reads, result, ?_, fun o ho => ?_⟩
        · rw [run_of_turn hp hturn, hrun, Option.map_some]
        · exact (List.mem_append.mp ho).elim (hreads o) (hrest o)
    · exact ⟨1, [], .inr s, run_of_le hp, fun o ho => absurd ho List.not_mem_nil⟩

/-- The loop ends and reads below `size` exactly when the records it comes to fit. -/
theorem run_iff (hsettles : W.Settles) : (∃ n reads result,
      W.run limit n s p = some (reads, result) ∧ ∀ o ∈ reads, o < size) ↔
    W.Fits limit size s p :=
  ⟨fun ⟨_, _, _, hrun, hreads⟩ => fits_of_run hsettles hrun hreads, Fits.run⟩

/-- From the first record on, the records at `ps`, the last one first, lie before the position,
and the loop goes on behind each of them. -/
inductive Follows (width : Nat → Nat) (goesOn : List Nat → Nat → Prop) : List Nat → Nat → Prop
  | nil : Follows width goesOn [] 0
  | cons {ps : List Nat} {p : Nat} : Follows width goesOn ps p → goesOn ps p →
      Follows width goesOn (p :: ps) (p + width p)

variable {F : Type*} {flag : List Nat → F} {π : S → F} {goesOn : List Nat → Nat → Prop}

/-- As far as it decides about reading and returning, a state tells something about the records
before it. -/
structure Tells (W : RecordWalk S R) (flag : List Nat → F) (π : S → F)
    (goesOn : List Nat → Nat → Prop) : Prop where
  goesOn_iff : ∀ {ps p s}, π s = flag ps → (goesOn ps p ↔ ∃ s', W.turn s p = .inr s')
  next : ∀ {ps p s s'}, π s = flag ps → W.turn s p = .inr s' → π s' = flag (p :: ps)

theorem Visits.lt {t : S} {q : Nat} (h : W.Visits limit s p t q) : q < limit := by
  induction h with
  | here hp => exact hp
  | later _ _ _ ih => exact ih

theorem Visits.snoc {t t' : S} {q : Nat} (h : W.Visits limit s p t q)
    (hturn : W.turn t q = .inr t') (hlt : q + W.width q < limit) :
    W.Visits limit s p t' (q + W.width q) := by
  induction h with
  | here hp => exact .later hp hturn (.here hlt)
  | later hp hnext _ ih => exact .later hp hnext (ih hturn hlt)

theorem Tells.follows_of_visits (h : W.Tells flag π goesOn) {t : S} {q : Nat} {ps : List Nat}
    (hvisit : W.Visits limit s p t q) (hps : Follows W.width goesOn ps p) (hs : π s = flag ps) :
    ∃ qs, Follows W.width goesOn qs q ∧ π t = flag qs := by
  induction hvisit generalizing ps with
  | here _ => exact ⟨ps, hps, hs⟩
  | later _ hturn _ ih =>
    exact ih (hps.cons ((h.goesOn_iff hs).mpr ⟨_, hturn⟩)) (h.next hs hturn)

theorem Tells.visits_of_follows (h : W.Tells flag π goesOn) (hs : π s = flag []) {ps : List Nat}
    (hps : Follows W.width goesOn ps p) (hp : p < limit) :
    ∃ t, W.Visits limit s 0 t p ∧ π t = flag ps := by
  induction hps with
  | nil => exact ⟨s, .here hp, hs⟩
  | cons _ hgo ih =>
    obtain ⟨t, hvisit, ht⟩ := ih (Nat.lt_of_le_of_lt (Nat.le_add_right ..) hp)
    obtain ⟨t', hturn⟩ := (h.goesOn_iff ht).mp hgo
    exact ⟨t', hvisit.snoc hturn hp, h.next ht hturn⟩

/-- Which records the loop comes to, and what it reads there, told from the records alone. -/
theorem Tells.fits_iff (h : W.Tells flag π goesOn) (hs : π s = flag []) {reads : F → Nat → List Nat}
    (hreads : ∀ s p, W.reads s p = reads (π s) p) :
    W.Fits limit size s 0 ↔ ∀ ps p, Follows W.width goesOn ps p → p < limit →
      (∀ o ∈ reads (flag ps) p, o < size) ∧ (goesOn ps p → 0 < W.width p) := by
  constructor
  · intro hfits ps p hps hp
    obtain ⟨t, hvisit, ht⟩ := h.visits_of_follows hs hps hp
    obtain ⟨hinside, hwidth⟩ := hfits t p hvisit
    rw [hreads, ht] at hinside
    refine ⟨hinside, fun hgo => ?_⟩
    obtain ⟨t', hturn⟩ := (h.goesOn_iff ht).mp hgo
    exact hwidth t' hturn
  · intro hrecords t q hvisit
    obtain ⟨qs, hqs, ht⟩ := h.follows_of_visits hvisit .nil hs
    obtain ⟨hinside, hwidth⟩ := hrecords qs q hqs hvisit.lt
    rw [hreads, ht]
    exact ⟨hinside, fun t' hturn => hwidth ((h.goesOn_iff ht).mpr ⟨t', hturn⟩)⟩

end RecordWalk
