import Mathlib.Data.List.Basic

/-!
# Runs of a transition system

A run is recorded with its newest step first, each step beside the state it was taken
in. Properties of a run are stated step by step, so that what was done before a step can
be part of the property.
-/

namespace Transition

variable {S O : Type*}

section Run

variable (step : S → O → S) (ok : S → O → Prop) (start : S → Prop)

/-- The runs from a start state, and the state each of them ends in. -/
inductive Run : List (S × O) → S → Prop
  | start {s : S} : start s → Run [] s
  | step {past : List (S × O)} {s : S} (o : O) :
      Run past s → ok s o → Run ((s, o) :: past) (step s o)

end Run

/-- The steps of `os` can be taken one after the other. -/
def Allowed (step : S → O → S) (ok : S → O → Prop) : S → List O → Prop
  | _, [] => True
  | s, o :: os => ok s o ∧ Allowed step ok (step s o) os

instance decidableAllowed (step : S → O → S) (ok : S → O → Prop) [∀ s o, Decidable (ok s o)] :
    (s : S) → (os : List O) → Decidable (Allowed step ok s os)
  | _, [] => inferInstanceAs (Decidable True)
  | s, o :: os =>
    have := decidableAllowed step ok (step s o) os
    inferInstanceAs (Decidable (ok s o ∧ Allowed step ok (step s o) os))

theorem Allowed.of_forall {step : S → O → S} {ok : S → O → Prop} (h : ∀ s o, ok s o) {s : S}
    {os : List O} : Allowed step ok s os := by
  induction os generalizing s with
  | nil => trivial
  | cons o os ih => exact ⟨h s o, ih⟩

/-- The run that takes the steps of `os` after those already recorded. -/
def record (step : S → O → S) : List (S × O) → S → List O → List (S × O) × S
  | past, s, [] => (past, s)
  | past, s, o :: os => record step ((s, o) :: past) (step s o) os

/-- Every step of a run has the property `P`, given what came before it. -/
def Throughout (P : List (S × O) → S × O → Prop) : List (S × O) → Prop
  | [] => True
  | x :: past => P past x ∧ Throughout P past

instance decidableThroughout (P : List (S × O) → S × O → Prop) [∀ past x, Decidable (P past x)] :
    (run : List (S × O)) → Decidable (Throughout P run)
  | [] => inferInstanceAs (Decidable True)
  | x :: past =>
    have := decidableThroughout P past
    inferInstanceAs (Decidable (P past x ∧ Throughout P past))

theorem Throughout.imp {P Q : List (S × O) → S × O → Prop} {run : List (S × O)}
    (h : ∀ past x, P past x → Q past x) (hp : Throughout P run) : Throughout Q run := by
  induction run with
  | nil => trivial
  | cons x past ih => exact ⟨h past x hp.1, ih hp.2⟩

namespace Run

variable {step : S → O → S} {ok : S → O → Prop} {start : S → Prop}
  {run : List (S × O)} {s : S} {I : List (S × O) → S → Prop}

/-- An invariant of the steps holds at the end of every run. -/
theorem invariant (h : Run step ok start run s) (hstart : ∀ s, start s → I [] s)
    (hstep : ∀ past s o, I past s → ok s o → I ((s, o) :: past) (step s o)) : I run s := by
  induction h with
  | start h0 => exact hstart _ h0
  | step o _ hok ih => exact hstep _ _ o ih hok

/-- When each step that meets a condition keeps the invariant and has the property `P`, a
run whose steps all meet the condition has the property throughout. -/
theorem throughout {C P : List (S × O) → S × O → Prop} (h : Run step ok start run s)
    (hstart : ∀ s, start s → I [] s)
    (hstep : ∀ past s o, I past s → ok s o → C past (s, o) →
      P past (s, o) ∧ I ((s, o) :: past) (step s o))
    (hc : Throughout C run) : Throughout P run ∧ I run s := by
  induction h with
  | start h0 => exact ⟨trivial, hstart _ h0⟩
  | step o _ hok ih =>
    obtain ⟨hpast, hi⟩ := ih hc.2
    obtain ⟨hp, hnext⟩ := hstep _ _ o hi hok hc.1
    exact ⟨⟨hp, hpast⟩, hnext⟩

/-- Where each step has the property `P` exactly when it has `Q`, so have whole runs. -/
theorem throughout_iff {P Q : List (S × O) → S × O → Prop} (h : Run step ok start run s)
    (hstart : ∀ s, start s → I [] s)
    (hstep : ∀ past s o, I past s → ok s o → I ((s, o) :: past) (step s o))
    (hiff : ∀ past s o, I past s → ok s o → (P past (s, o) ↔ Q past (s, o))) :
    Throughout P run ↔ Throughout Q run := by
  constructor
  · intro hp
    exact (h.throughout hstart (fun past s o hi ha hl =>
      ⟨(hiff past s o hi ha).mp hl, hstep past s o hi ha⟩) hp).1
  · intro hq
    exact (h.throughout hstart (fun past s o hi ha hl =>
      ⟨(hiff past s o hi ha).mpr hl, hstep past s o hi ha⟩) hq).1

theorem record {os : List O} (h : Run step ok start run s) (ha : Allowed step ok s os) :
    Run step ok start (record step run s os).1 (record step run s os).2 := by
  induction os generalizing run s with
  | nil => exact h
  | cons o os ih => exact ih (.step o h ha.1) ha.2

end Run

end Transition
