import Mathlib.Data.List.Basic

/-!
# Reading a sequence piece by piece

A reader stands somewhere in a sequence. Each read takes as many elements as it is asked for, or
what is left.
-/

namespace Reader

variable {α : Type*}

/-- The pieces that reads of these lengths take off the front, and what is left behind them. -/
def reads : List α → List Nat → List (List α) × List α
  | rest, [] => ([], rest)
  | rest, len :: lens =>
    (rest.take len :: (reads (rest.drop len) lens).1, (reads (rest.drop len) lens).2)

/-- No element is lost, and none is read twice. -/
theorem flatten_reads (rest : List α) (lens : List Nat) :
    (reads rest lens).1.flatten ++ (reads rest lens).2 = rest := by
  induction lens generalizing rest with
  | nil => rfl
  | cons len lens ih =>
    rw [reads, List.flatten_cons, List.append_assoc, ih, List.take_append_drop]

/-- The length of what is left tells how much was read. -/
theorem length_left (rest : List α) (lens : List Nat) :
    (reads rest lens).2.length = rest.length - (reads rest lens).1.flatten.length := by
  have hlen := congrArg List.length (flatten_reads rest lens)
  rw [List.length_append] at hlen
  omega

end Reader
