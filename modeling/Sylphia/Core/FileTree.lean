import Mathlib.Data.List.Basic
import Mathlib.Logic.Function.Basic

/-!
# File trees

Files and directories under the names of a path. Nothing is below a file, and a tree is changed
at one name of a directory at a time.
-/

namespace FileTree

/-- What a path leads to. -/
inductive Node (C : Type*)
  | directory
  | file (content : C)
  deriving DecidableEq

/-- What has nothing below it: a file, or nothing. -/
def IsLeaf {C : Type*} : Option (Node C) → Prop
  | some .directory => False
  | _ => True

instance {C : Type*} : (o : Option (Node C)) → Decidable (IsLeaf o)
  | none => inferInstanceAs (Decidable True)
  | some .directory => inferInstanceAs (Decidable False)
  | some (.file _) => inferInstanceAs (Decidable True)

/-- A tree of directories and files. -/
@[ext]
structure Tree (N C : Type*) where
  node : List N → Option (Node C)
  root : node [] = some .directory
  parent : ∀ p x, IsLeaf (node p) → node (p ++ [x]) = none

namespace Tree

variable {N C : Type*} {t : Tree N C} {p q : List N} {x y : N}
  {v w : Option (Node C)}

/-- The tree that has a root directory only. -/
def empty : Tree N C where
  node p := if p = [] then some .directory else none
  root := if_pos rfl
  parent p x _ := if_neg (by simp)

theorem node_empty (p : List N) :
    (empty : Tree N C).node p = if p = [] then some .directory else none := rfl

/-- There is nothing below a file. -/
theorem node_append (h : IsLeaf (t.node p)) (hq : q ≠ []) : t.node (p ++ q) = none := by
  induction q generalizing p with
  | nil => exact absurd rfl hq
  | cons y q ih =>
    have hy := t.parent p y h
    rw [List.append_cons]
    by_cases hnil : q = []
    · rw [hnil, List.append_nil, hy]
    · exact ih (by rw [hy]; trivial) hnil

variable [DecidableEq N]

/-- What is under the name in the directory is replaced, unless there is a directory. -/
def put (t : Tree N C) (p : List N) (x : N) (v : Option (Node C)) : Tree N C :=
  if h : ¬IsLeaf (t.node p) ∧ IsLeaf (t.node (p ++ [x])) then
    { node := Function.update t.node (p ++ [x]) v
      root := by rw [Function.update_of_ne (by simp), t.root]
      parent := by
        intro q y hq
        by_cases hqx : q = p ++ [x]
        · rw [Function.update_of_ne (by simp [hqx]), hqx]
          exact t.parent _ y h.2
        · rw [Function.update_of_ne hqx] at hq
          rw [Function.update_of_ne, t.parent q y hq]
          intro heq
          obtain ⟨rfl, -⟩ := List.append_inj' heq rfl
          exact h.1 hq }
  else t

/-- The content of the file under the name is changed, if there is a file. -/
def modify (t : Tree N C) (p : List N) (x : N) (f : C → C) : Tree N C :=
  match t.node (p ++ [x]) with
  | some (.file b) => t.put p x (some (.file (f b)))
  | _ => t

theorem modify_file {b : C} (f : C → C) (h : t.node (p ++ [x]) = some (.file b)) :
    t.modify p x f = t.put p x (some (.file (f b))) := by
  rw [modify, h]

section Put

variable (hp : ¬IsLeaf (t.node p)) (hx : IsLeaf (t.node (p ++ [x])))
include hp hx

theorem node_put : (t.put p x v).node q = if q = p ++ [x] then v else t.node q := by
  rw [put, dif_pos ⟨hp, hx⟩]
  exact Function.update_apply ..

/-- What is there is put there. -/
theorem put_node : t.put p x (t.node (p ++ [x])) = t := by
  ext q : 2
  rw [node_put hp hx]
  split
  · next h => rw [h]
  · rfl

end Put

end Tree

end FileTree
