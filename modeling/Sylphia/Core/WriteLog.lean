import Mathlib.Data.List.Basic
import Mathlib.Data.List.Infix
import Mathlib.Logic.Function.Basic

/-!
# Stores with a log of their writes

A store keeps the sequence of the writes made to it. A property holds throughout a
computation when it holds of what every prefix of its writes makes of the store.
-/

namespace WriteLog

/-- The store after a sequence of writes. -/
def replay {A V : Type*} [DecidableEq A] (ws : List (A × V)) (s : A → V) : A → V :=
  ws.foldl (fun s w => Function.update s w.1 w.2) s

/-- A store with the log of the writes to it, the oldest first. -/
structure Logged (A V : Type*) where
  store : A → V
  log : List (A × V)

variable {A V : Type*} [DecidableEq A]

theorem replay_append (ws vs : List (A × V)) (s : A → V) :
    replay (ws ++ vs) s = replay vs (replay ws s) := List.foldl_append

/-- Values that are written to addresses with an index, each at the address of its own. -/
theorem replay_range {f : Nat → A} {g : Nat → V} {R : A → Prop} [DecidablePred R]
    {index : A → Nat} {n : Nat} (h : ∀ i < n, ∀ a, f i = a ↔ R a ∧ index a = i) (s : A → V)
    (a : A) : replay ((List.range n).map fun i => (f i, g i)) s a =
      if R a ∧ index a < n then g (index a) else s a := by
  induction n with
  | zero => rw [if_neg fun hlt => Nat.not_lt_zero _ hlt.2]; rfl
  | succ n ih =>
    have hlast := h n (Nat.lt_succ_self n) a
    rw [List.range_succ, List.map_append, replay_append]
    show Function.update (replay _ s) (f n) (g n) a = _
    by_cases heq : f n = a
    · obtain ⟨hr, hn⟩ := hlast.mp heq
      rw [heq, Function.update_self, if_pos ⟨hr, by omega⟩, hn]
    · rw [Function.update_of_ne (Ne.symm heq), ih fun i hi => h i (by omega)]
      have hne : R a → index a ≠ n := fun hr hn => heq (hlast.mpr ⟨hr, hn⟩)
      refine if_congr (and_congr_right fun hr => ?_) rfl rfl
      have := hne hr
      omega

namespace Logged

/-- A write, and its record in the log. -/
def write (d : Logged A V) (a : A) (v : V) : Logged A V :=
  ⟨Function.update d.store a v, d.log ++ [(a, v)]⟩

theorem write_store_self (d : Logged A V) (a : A) (v : V) : (d.write a v).store a = v :=
  Function.update_self ..

theorem write_store_of_ne (d : Logged A V) {a b : A} (h : b ≠ a) (v : V) :
    (d.write a v).store b = d.store b := Function.update_of_ne h ..

/-- From `d` to `d'` the property holds of every store, after each of the writes. -/
def Through (P : (A → V) → Prop) (d d' : Logged A V) : Prop :=
  ∃ ws, d'.log = d.log ++ ws ∧ d'.store = replay ws d.store ∧
    ∀ vs, vs <+: ws → P (replay vs d.store)

variable {P Q : (A → V) → Prop} {d d' d'' : Logged A V}

theorem Through.refl (h : P d.store) : Through P d d := by
  refine ⟨[], (List.append_nil _).symm, rfl, fun vs hvs => ?_⟩
  rw [List.prefix_nil.mp hvs]
  exact h

theorem Through.write (h : Through P d d') {a : A} {v : V}
    (hp : P (Function.update d'.store a v)) : Through P d (d'.write a v) := by
  obtain ⟨ws, hl, hs, hall⟩ := h
  have hlast : replay (ws ++ [(a, v)]) d.store = Function.update d'.store a v := by
    rw [replay_append, ← hs]
    rfl
  refine ⟨ws ++ [(a, v)], ?_, hlast.symm, fun vs hvs => ?_⟩
  · rw [Logged.write, hl, List.append_assoc]
  · rcases List.prefix_concat_iff.mp hvs with rfl | hvs
    · rw [hlast]
      exact hp
    · exact hall vs hvs

theorem Through.trans (h : Through P d d') (h' : Through P d' d'') : Through P d d'' := by
  obtain ⟨ws, hl, hs, hall⟩ := h
  obtain ⟨ws', hl', hs', hall'⟩ := h'
  refine ⟨ws ++ ws', ?_, ?_, fun vs hvs => ?_⟩
  · rw [hl', hl, List.append_assoc]
  · rw [hs', hs, replay_append]
  · rcases List.prefix_or_prefix_of_prefix hvs (List.prefix_append ws ws') with hvs | ⟨vs', rfl⟩
    · exact hall vs hvs
    · rw [replay_append, ← hs]
      exact hall' vs' ((List.prefix_append_right_inj ws).mp hvs)

theorem Through.mono (h : Through P d d') (hpq : ∀ s, P s → Q s) : Through Q d d' := by
  obtain ⟨ws, hl, hs, hall⟩ := h
  exact ⟨ws, hl, hs, fun vs hvs => hpq _ (hall vs hvs)⟩

/-- A state that a computation goes through has the property. -/
theorem Through.mid (h : Through P d d'') (h₁ : Through (fun _ => True) d d')
    (h₂ : Through (fun _ => True) d' d'') : P d'.store := by
  obtain ⟨ws, hl, -, hall⟩ := h
  obtain ⟨vs, hl₁, hs₁, -⟩ := h₁
  obtain ⟨us, hl₂, -, -⟩ := h₂
  have hws : ws = vs ++ us := by
    rw [hl₂, hl₁, List.append_assoc] at hl
    exact (List.append_cancel_left hl).symm
  rw [hs₁]
  exact hall vs (hws ▸ List.prefix_append vs us)

/-- The states that a computation on a fresh log passes through. -/
theorem through_iff {s : A → V} (h : Through (fun _ => True) ⟨s, []⟩ d') :
    Through P ⟨s, []⟩ d' ↔ ∀ ws, ws <+: d'.log → P (replay ws s) := by
  constructor
  · rintro ⟨vs, hl, -, hall⟩ ws hws
    rw [hl, List.nil_append] at hws
    exact hall ws hws
  · intro hall
    obtain ⟨vs, hl, hs, -⟩ := h
    rw [List.nil_append] at hl
    exact ⟨vs, hl, hs, fun ws hws => hall ws (hl ▸ hws)⟩

/-- From `d` to `d'` only addresses with the property are written. -/
def Within (R : A → Prop) (d d' : Logged A V) : Prop :=
  ∃ ws, d'.log = d.log ++ ws ∧ d'.store = replay ws d.store ∧ ∀ w ∈ ws, R w.1

variable {R S : A → Prop}

theorem Within.refl (R : A → Prop) (d : Logged A V) : Within R d d := by
  refine ⟨[], (List.append_nil _).symm, rfl, fun w hw => ?_⟩
  exact absurd hw List.not_mem_nil

theorem Within.trans (h : Within R d d') (h' : Within R d' d'') : Within R d d'' := by
  obtain ⟨ws, hl, hs, hall⟩ := h
  obtain ⟨ws', hl', hs', hall'⟩ := h'
  refine ⟨ws ++ ws', ?_, ?_, fun w hw => ?_⟩
  · rw [hl', hl, List.append_assoc]
  · rw [hs', hs, replay_append]
  · exact (List.mem_append.mp hw).elim (hall w) (hall' w)

theorem Within.mono (h : Within R d d') (hrs : ∀ a, R a → S a) : Within S d d' := by
  obtain ⟨ws, hl, hs, hall⟩ := h
  exact ⟨ws, hl, hs, fun w hw => hrs _ (hall w hw)⟩

theorem within_write (d : Logged A V) {a : A} (v : V) (ha : R a) : Within R d (d.write a v) := by
  refine ⟨[(a, v)], rfl, rfl, fun w hw => ?_⟩
  rw [List.mem_singleton.mp hw]
  exact ha

/-- All that was written, before and since. -/
theorem Within.forall_log (h : Within R d d') (hd : ∀ w ∈ d.log, R w.1) : ∀ w ∈ d'.log, R w.1 := by
  obtain ⟨ws, hl, -, hall⟩ := h
  intro w hw
  rw [hl] at hw
  exact (List.mem_append.mp hw).elim (hd w) (hall w)

/-- A loop whose turns write only such addresses. -/
theorem within_foldl {X : Type*} {f : Logged A V → X → Logged A V} {xs : List X}
    (h : ∀ x ∈ xs, ∀ d, Within R d (f d x)) (d : Logged A V) : Within R d (xs.foldl f d) := by
  induction xs generalizing d with
  | nil => exact Within.refl R d
  | cons x xs ih =>
    have hfirst := h x List.mem_cons_self d
    exact hfirst.trans (ih (fun x hx => h x (List.mem_cons_of_mem _ hx)) (f d x))

theorem replay_of_forall_ne {ws : List (A × V)} {a : A} (h : ∀ w ∈ ws, w.1 ≠ a) (s : A → V) :
    replay ws s a = s a := by
  induction ws generalizing s with
  | nil => rfl
  | cons w ws ih =>
    have hrest := ih (fun w hw => h w (List.mem_cons_of_mem _ hw)) (Function.update s w.1 w.2)
    exact hrest.trans (Function.update_of_ne (h w List.mem_cons_self).symm ..)

/-- The rest of the store is as before. -/
theorem Within.store_eq (h : Within R d d') {a : A} (ha : ¬ R a) : d'.store a = d.store a := by
  obtain ⟨ws, -, hs, hall⟩ := h
  have hne : ∀ w ∈ ws, w.1 ≠ a := by
    rintro w hw rfl
    exact ha (hall w hw)
  rw [hs, replay_of_forall_ne hne]

end Logged

end WriteLog
