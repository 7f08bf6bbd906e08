import Sylphia.Core.WriteLog

/-!
# Computations with fixed writes

A computation that makes the same writes whatever is in the store can be interrupted and started
again: what the first writes left does not show in the end.
-/

namespace WriteLog

variable {A V : Type*} [DecidableEq A]

/-- Two stores look alike where they were alike or are written. -/
theorem replay_congr {ws : List (A × V)} {s t : A → V} {a : A}
    (h : (∀ w ∈ ws, w.1 ≠ a) → s a = t a) : replay ws s a = replay ws t a := by
  induction ws generalizing s t with
  | nil => exact h fun _ hw => absurd hw List.not_mem_nil
  | cons w ws ih =>
    refine ih fun hrest => ?_
    dsimp only
    by_cases hw : a = w.1
    · rw [hw, Function.update_self, Function.update_self]
    · rw [Function.update_of_ne hw, Function.update_of_ne hw]
      refine h fun u hu => ?_
      rcases List.mem_cons.mp hu with rfl | hu
      · exact Ne.symm hw
      · exact hrest u hu

/-- Writes to addresses that are written again leave no trace. -/
theorem replay_replay {ws vs : List (A × V)} (h : ∀ v ∈ vs, ∃ w ∈ ws, w.1 = v.1) (s : A → V) :
    replay ws (replay vs s) = replay ws s := by
  funext a
  refine replay_congr fun hws => Logged.replay_of_forall_ne (fun v hv hva => ?_) s
  obtain ⟨w, hw, hwv⟩ := h v hv
  exact hws w hw (hwv.trans hva)

/-- Where no address is written twice, each has what was written to it. -/
theorem replay_of_mem {ws : List (A × V)} (hws : (ws.map Prod.fst).Nodup) {w : A × V} (hw : w ∈ ws)
    (s : A → V) : replay ws s w.1 = w.2 := by
  induction ws generalizing s with
  | nil => exact absurd hw List.not_mem_nil
  | cons u ws ih =>
    rw [List.map_cons, List.nodup_cons] at hws
    rcases List.mem_cons.mp hw with rfl | hw
    · have hne : ∀ u ∈ ws, u.1 ≠ w.1 := fun u hu heq =>
        hws.1 (heq ▸ List.mem_map_of_mem hu)
      exact (Logged.replay_of_forall_ne hne _).trans (Function.update_self ..)
    · exact ih hws.2 hw _

/-- The computation makes these writes, whatever is in the store. -/
def Writes (f : Logged A V → Logged A V) (ws : List (A × V)) : Prop :=
  ∀ d, f d = ⟨replay ws d.store, d.log ++ ws⟩

namespace Writes

variable {f g : Logged A V → Logged A V} {ws vs : List (A × V)} {R : A → Prop}

theorem refl : Writes (fun d : Logged A V => d) [] := fun d => by rw [List.append_nil]; rfl

theorem write (a : A) (v : V) : Writes (fun d => d.write a v) [(a, v)] := fun _ => rfl

theorem trans (hf : Writes f ws) (hg : Writes g vs) : Writes (fun d => g (f d)) (ws ++ vs) := by
  intro d
  dsimp only
  rw [hg, hf]
  dsimp only
  rw [replay_append, List.append_assoc]

/-- Where the writes go. -/
theorem forall_of_within (hf : Writes f ws) {d : Logged A V} (h : Logged.Within R d (f d)) :
    ∀ w ∈ ws, R w.1 := by
  obtain ⟨vs, hlog, -, hall⟩ := h
  rw [hf] at hlog
  rwa [List.append_cancel_left hlog]

/-- The computation after an interruption. -/
theorem restart (hf : Writes f ws) (hvs : vs <+: ws) (s : A → V) :
    f ⟨replay vs s, []⟩ = f ⟨s, []⟩ := by
  rw [hf, hf]
  dsimp only
  rw [replay_replay fun v hv => ⟨v, hvs.subset hv, rfl⟩]

end Writes

end WriteLog
