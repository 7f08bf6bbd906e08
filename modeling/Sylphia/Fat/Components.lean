import Sylphia.Fat.EnsureDirectory

/-!
# What is looked up along a path

`EnsureDirectory` and `GetFileEntry` take a path apart with a loop of their own each, in
pieces of at most 15 characters. The names that they look up are taken from the path alone;
what the device holds only decides how far they get. They are the components of the path if
none of these is longer and no slash is doubled or last.
-/

namespace Sylphia

open Bytes WriteLog FAT32Driver

/-- The names that `GetFileEntry` looks up, for so many rounds, and whether the path ends with the
last of them. -/
def entryNames : Nat → List Byte → List (List Byte) × Bool
  | 0, _ => ([], false)
  | n + 1, path =>
    if path = [] then ([], false)
    else if path.drop (segment path).length = [] then ([segment path], true)
    else (segment path :: (entryNames n (behind path)).1, (entryNames n (behind path)).2)

/-- The path behind a slash at its start. -/
def relative (path : List Byte) : List Byte :=
  if path.head? = some 0x2F#8 then path.drop 1 else path

/-- The components of a path: what is between its slashes, where that is anything. -/
def components (path : List Byte) : List (List Byte) := (path.splitOn 0x2F#8).filter (· ≠ [])

/-- The same components with one slash between them. -/
def normalPath (path : List Byte) : List Byte :=
  (if path.head? = some 0x2F#8 then [0x2F#8] else []) ++ joinPath (components path)

/-- One name for each component, shortened at most. -/
def Shortens (names comps : List (List Byte)) : Prop :=
  List.Forall₂ (fun x c => x ≠ [] ∧ x <+: c) names comps

namespace FAT32Driver

/-- `EnsureDirectory` along a list of names: one lookup for each. -/
def ensureAlong (fs : FAT32Driver) : List (List Byte) → BlockDevice → Nat → Nat × BlockDevice
  | [], dev, current => (current, dev)
  | x :: xs, dev, current =>
    match fs.findDirectoryEntry dev x current with
    | some entry => if entry.isDirectory then ensureAlong fs xs dev entry.firstCluster else (0, dev)
    | none =>
      let (newCluster, dev) := fs.createDirectory dev (to83Format x) current
      if newCluster = 0 then (0, dev) else ensureAlong fs xs dev newCluster

/-- `GetFileEntry` along a list of names: one lookup for each, and the slot of the last one if the
path ends with it. -/
def resolveAlong (fs : FAT32Driver) (dev : BlockDevice) (ends : Bool) :
    List (List Byte) → Nat → Option Slot
  | [], _ => none
  | x :: xs, current =>
    match fs.findSlot dev x current with
    | none => none
    | some s =>
      if xs = [] ∧ ends then some s
      else if !(fs.slotEntry dev s).isDirectory then none
      else resolveAlong fs dev ends xs (fs.directoryOf (fs.slotEntry dev s).firstCluster)

end FAT32Driver

/-- Both walkers look up the components of a path, one name for each, `GetFileEntry` gets to an
entry with the last of them, and more slashes make no difference. -/
structure WalksComponents (path : List Byte) : Prop where
  ensure : Shortens (segments path.length (relative path)) (components path)
  entry : Shortens (entryNames path.length (relative path)).1 (components path)
  ends : (entryNames path.length (relative path)).2 = true ↔ components path ≠ []
  ensure_normal (fs : FAT32Driver) (dev : BlockDevice) :
    fs.ensureDirectory dev path = fs.ensureDirectory dev (normalPath path)
  entry_normal (fs : FAT32Driver) (dev : BlockDevice) (baseCluster : Nat) :
    fs.resolve dev path baseCluster = fs.resolve dev (normalPath path) baseCluster

section Paths

variable {path x rest : List Byte} {c : Byte} {n : Nat}

theorem segment_append (hx : 0x2F#8 ∉ x) :
    segment (x ++ rest) = (x ++ rest.takeWhile (· ≠ 0x2F#8)).take 15 := by
  have hall : ∀ a ∈ x, decide (a ≠ 0x2F#8) = true := by
    intro a ha
    rw [decide_eq_true_iff]
    rintro rfl
    exact hx ha
  rw [segment, List.takeWhile_append_of_pos hall]

theorem segment_whole (hx : 0x2F#8 ∉ x) (hlen : x.length ≤ 15) : segment x = x := by
  have hseg := @segment_append x [] hx
  rwa [List.append_nil, List.takeWhile_nil, List.append_nil, List.take_of_length_le hlen] at hseg

theorem segment_slash (hx : 0x2F#8 ∉ x) (hlen : x.length ≤ 15) :
    segment (x ++ 0x2F#8 :: rest) = x := by
  rw [segment_append hx, List.takeWhile_cons_of_neg (by simp), List.append_nil,
    List.take_of_length_le hlen]

theorem segment_cut (hx : 0x2F#8 ∉ x) (hlen : x.length = 15) : segment (x ++ rest) = x := by
  rw [segment_append hx, List.take_left' hlen]

theorem behind_slash (hx : 0x2F#8 ∉ x) (hlen : x.length ≤ 15) :
    behind (x ++ 0x2F#8 :: rest) = rest := by
  rw [behind, segment_slash hx hlen, List.drop_left, List.head?_cons, if_pos rfl]
  rfl

theorem behind_cut (hx : 0x2F#8 ∉ x) (hlen : x.length = 15) (hc : c ≠ 0x2F#8) :
    behind (x ++ c :: rest) = c :: rest := by
  rw [behind, segment_cut hx hlen, List.drop_left, List.head?_cons, if_neg (by simpa using hc)]

/-- A path is empty, or it ends with its first piece, or a slash is behind that, or the piece is
cut off behind 15 characters. -/
theorem path_induction {motive : List Byte → Prop} (nil : motive [])
    (whole : ∀ x, x ≠ [] → 0x2F#8 ∉ x → x.length ≤ 15 → motive x)
    (slash : ∀ x rest, 0x2F#8 ∉ x → x.length ≤ 15 → motive rest → motive (x ++ 0x2F#8 :: rest))
    (cut : ∀ x c rest, 0x2F#8 ∉ x → x.length = 15 → c ≠ 0x2F#8 → motive (c :: rest) →
      motive (x ++ c :: rest)) (path : List Byte) : motive path := by
  induction hn : path.length using Nat.strong_induction_on generalizing path with
  | _ n ih =>
    obtain ⟨x, rest, rfl, hx, hrest⟩ : ∃ x rest, path = x ++ rest ∧ 0x2F#8 ∉ x ∧
        (rest = [] ∨ ∃ tail, rest = 0x2F#8 :: tail) := by
      by_cases hmem : 0x2F#8 ∈ path
      · obtain ⟨x, tail, rfl, hx⟩ := List.eq_append_cons_of_mem hmem
        exact ⟨x, _, rfl, hx, Or.inr ⟨tail, rfl⟩⟩
      · exact ⟨path, [], (List.append_nil path).symm, hmem, Or.inl rfl⟩
    by_cases hlen : x.length ≤ 15
    · obtain rfl | ⟨tail, rfl⟩ := hrest
      · rw [List.append_nil]
        by_cases hnil : x = []
        · rw [hnil]
          exact nil
        · exact whole x hnil hx hlen
      · rw [List.length_append, List.length_cons] at hn
        exact slash x tail hx hlen (ih tail.length (by omega) tail rfl)
    · obtain ⟨c, y, hy⟩ := List.exists_cons_of_ne_nil
        (show x.drop 15 ≠ [] by rw [Ne, List.drop_eq_nil_iff]; exact hlen)
      have hc : c ≠ 0x2F#8 := by
        rintro rfl
        exact hx (List.mem_of_mem_drop (hy ▸ List.mem_cons_self))
      have hcut : x ++ rest = x.take 15 ++ c :: (y ++ rest) := by
        rw [← List.cons_append, ← hy, ← List.append_assoc, List.take_append_drop]
      have hlength : (x.take 15).length = 15 := List.length_take_of_le (by omega)
      rw [hcut] at hn ⊢
      rw [List.length_append, hlength] at hn
      exact cut _ c _ (fun hmem => hx (List.mem_of_mem_take hmem)) hlength hc
        (ih (c :: (y ++ rest)).length (by omega) _ rfl)

theorem entryNames_whole (hnil : x ≠ []) (hx : 0x2F#8 ∉ x) (hlen : x.length ≤ 15) :
    entryNames (n + 1) x = ([x], true) := by
  rw [entryNames, if_neg hnil, segment_whole hx hlen, List.drop_length, if_pos rfl]

theorem entryNames_slash (hx : 0x2F#8 ∉ x) (hlen : x.length ≤ 15) :
    entryNames (n + 1) (x ++ 0x2F#8 :: rest) =
      (x :: (entryNames n rest).1, (entryNames n rest).2) := by
  rw [entryNames, if_neg (by simp), segment_slash hx hlen, behind_slash hx hlen, List.drop_left,
    if_neg (by simp)]

theorem entryNames_cut (hx : 0x2F#8 ∉ x) (hlen : x.length = 15) (hc : c ≠ 0x2F#8) :
    entryNames (n + 1) (x ++ c :: rest) =
      (x :: (entryNames n (c :: rest)).1, (entryNames n (c :: rest)).2) := by
  rw [entryNames, if_neg (by simp), segment_cut hx hlen, behind_cut hx hlen hc, List.drop_left,
    if_neg (by simp)]

/-! ## Components -/

/-- Characters without a slash belong to the first piece. -/
theorem splitOn_append (hx : 0x2F#8 ∉ x) (rest : List Byte) :
    (x ++ rest).splitOn 0x2F#8 = (rest.splitOn 0x2F#8).modifyHead (x ++ ·) := by
  induction x with
  | nil =>
    obtain ⟨y, ys, hy⟩ := List.exists_cons_of_ne_nil (List.splitOn_ne_nil 0x2F#8 rest)
    rw [List.nil_append, hy]
    rfl
  | cons c x ih =>
    rw [List.mem_cons, not_or] at hx
    rw [List.cons_append, List.splitOn_cons_eq_if_modifyHead, if_neg (by simpa using Ne.symm hx.1),
      ih hx.2, List.modifyHead_modifyHead]
    rfl

theorem components_whole (hnil : x ≠ []) (hx : 0x2F#8 ∉ x) : components x = [x] := by
  rw [components, List.splitOn_eq_singleton hx]
  simp [hnil]

theorem components_slash (hx : 0x2F#8 ∉ x) :
    components (x ++ 0x2F#8 :: rest) = (if x = [] then [] else [x]) ++ components rest := by
  rw [components, List.splitOn_append_cons_self_of_not_mem hx, List.filter_cons]
  by_cases hnil : x = []
  · simp [hnil, components]
  · simp [hnil, components]

/-- A component that is cut off stays one component. -/
theorem length_components_cut (hx : 0x2F#8 ∉ x) (hc : c ≠ 0x2F#8) :
    (components (x ++ c :: rest)).length = (components (c :: rest)).length := by
  obtain ⟨y, ys, hy⟩ := List.exists_cons_of_ne_nil (List.splitOn_ne_nil 0x2F#8 rest)
  rw [components, components, splitOn_append hx, List.splitOn_cons_eq_if_modifyHead,
    if_neg (by simpa using hc), hy]
  simp

/-- A path of components with one slash between them, each short enough for the buffer. -/
def SinglySlashed (path : List Byte) : Prop :=
  ∀ x ∈ path.splitOn 0x2F#8, x ≠ [] ∧ x.length ≤ 15

/-- Every component takes a lookup of `GetFileEntry`. -/
theorem length_components_le (hn : path.length ≤ n) :
    (components path).length ≤ (entryNames n path).1.length := by
  induction path using path_induction generalizing n with
  | nil => exact Nat.zero_le _
  | whole x hnil hx hlen =>
    obtain ⟨n, rfl⟩ := Nat.exists_eq_add_of_le' (Nat.le_trans (List.length_pos_iff.mpr hnil) hn)
    rw [components_whole hnil hx, entryNames_whole hnil hx hlen]
  | slash x rest hx hlen ih =>
    rw [List.length_append, List.length_cons] at hn
    obtain ⟨n, rfl⟩ := Nat.exists_eq_add_of_le' (show 1 ≤ n by omega)
    have hrest := ih (n := n) (by omega)
    rw [components_slash hx, entryNames_slash hx hlen, List.length_append, List.length_cons]
    split_ifs
    · rw [List.length_nil]
      omega
    · rw [List.length_singleton]
      omega
  | cut x c rest hx hlen hc ih =>
    rw [List.length_append, List.length_cons] at hn
    obtain ⟨n, rfl⟩ := Nat.exists_eq_add_of_le' (show 1 ≤ n by omega)
    have hrest := ih (n := n) (by rw [List.length_cons]; omega)
    rw [length_components_cut hx hc, entryNames_cut hx hlen hc, List.length_cons]
    omega

/-- If `GetFileEntry` takes no more lookups than there are components and gets to an entry, the path
has no other slashes and no longer components. -/
theorem singlySlashed_of_length (hn : path.length ≤ n) (hends : (entryNames n path).2 = true)
    (hlength : (entryNames n path).1.length = (components path).length) : SinglySlashed path := by
  induction path using path_induction generalizing n with
  | nil => cases n <;> cases hends
  | whole x hnil hx hlen =>
    intro y hy
    rw [List.splitOn_eq_singleton hx, List.mem_singleton] at hy
    rw [hy]
    exact ⟨hnil, hlen⟩
  | slash x rest hx hlen ih =>
    rw [List.length_append, List.length_cons] at hn
    obtain ⟨n, rfl⟩ := Nat.exists_eq_add_of_le' (show 1 ≤ n by omega)
    have hle := @length_components_le rest n (by omega)
    rw [entryNames_slash hx hlen] at hends hlength
    rw [components_slash hx, List.length_cons, List.length_append] at hlength
    have hnil : x ≠ [] := by
      intro hnil
      rw [if_pos hnil, List.length_nil] at hlength
      omega
    rw [if_neg hnil, List.length_singleton, Nat.add_comm 1, Nat.add_right_cancel_iff] at hlength
    intro y hy
    rw [List.splitOn_append_cons_self_of_not_mem hx, List.mem_cons] at hy
    obtain rfl | hy := hy
    · exact ⟨hnil, hlen⟩
    · exact ih (by omega) hends hlength y hy
  | cut x c rest hx hlen hc ih =>
    rw [List.length_append, List.length_cons] at hn
    obtain ⟨n, rfl⟩ := Nat.exists_eq_add_of_le' (show 1 ≤ n by omega)
    have hle := @length_components_le (c :: rest) n (by rw [List.length_cons]; omega)
    rw [entryNames_cut hx hlen hc, length_components_cut hx hc, List.length_cons] at hlength
    omega

/-- Both walkers look up the components of a path with single slashes. -/
theorem SinglySlashed.names (h : SinglySlashed path) (hn : path.length ≤ n) :
    entryNames n path = (path.splitOn 0x2F#8, true) ∧ segments n path = path.splitOn 0x2F#8 := by
  induction path using path_induction generalizing n with
  | nil => exact absurd rfl (h [] (by simp)).1
  | whole x hnil hx hlen =>
    obtain ⟨n, rfl⟩ := Nat.exists_eq_add_of_le' (Nat.le_trans (List.length_pos_iff.mpr hnil) hn)
    have hbehind : behind x = [] := by
      rw [behind, segment_whole hx hlen, List.drop_length]
      rfl
    have hstop : segments n [] = [] := by cases n <;> rfl
    rw [entryNames_whole hnil hx hlen, List.splitOn_eq_singleton hx, segments,
      segment_whole hx hlen, if_neg hnil, hbehind, hstop]
    exact ⟨rfl, rfl⟩
  | slash x rest hx hlen ih =>
    rw [SinglySlashed, List.splitOn_append_cons_self_of_not_mem hx, List.forall_mem_cons] at h
    rw [List.length_append, List.length_cons] at hn
    obtain ⟨n, rfl⟩ := Nat.exists_eq_add_of_le' (show 1 ≤ n by omega)
    obtain ⟨hentry, hensure⟩ := ih (n := n) h.2 (by omega)
    rw [entryNames_slash hx hlen, List.splitOn_append_cons_self_of_not_mem hx, segments,
      segment_slash hx hlen, if_neg h.1.1, behind_slash hx hlen, hentry, hensure]
    exact ⟨rfl, rfl⟩
  | cut x c rest hx hlen hc ih =>
    obtain ⟨y, ys, hy⟩ := List.exists_cons_of_ne_nil (List.splitOn_ne_nil 0x2F#8 rest)
    rw [SinglySlashed, splitOn_append hx, List.splitOn_cons_eq_if_modifyHead,
      if_neg (by simpa using hc), hy] at h
    have hlong : (x ++ c :: y).length ≤ 15 := (h _ List.mem_cons_self).2
    rw [List.length_append, List.length_cons] at hlong
    omega

theorem SinglySlashed.components_eq (h : SinglySlashed path) :
    components path = path.splitOn 0x2F#8 := by
  rw [components, List.filter_eq_self]
  exact fun x hx => by simpa using (h x hx).1

theorem length_relative_le (path : List Byte) : (relative path).length ≤ path.length := by
  rw [relative]
  split_ifs
  · rw [List.length_drop]
    omega
  · exact le_rfl

theorem relative_append {path : List Byte} (hpath : path ≠ []) (rest : List Byte) :
    relative (path ++ rest) = relative path ++ rest := by
  obtain ⟨c, tail, rfl⟩ := List.exists_cons_of_ne_nil hpath
  rw [relative, relative, List.cons_append, List.head?_cons, List.head?_cons]
  split_ifs
  · rfl
  · rfl

theorem components_relative (path : List Byte) : components (relative path) = components path := by
  rw [relative]
  split_ifs with hslash
  · obtain ⟨c, rest, rfl⟩ := List.exists_cons_of_ne_nil (show path ≠ [] by rintro rfl; cases hslash)
    obtain rfl : c = 0x2F#8 := by simpa using hslash
    exact (components_slash (x := []) List.not_mem_nil).symm
  · rfl

/-- A path that has nothing, or single slashes, behind its first slash is in normal form. -/
theorem normalPath_eq (h : relative path = [] ∨ SinglySlashed (relative path)) :
    normalPath path = path := by
  have hjoin : joinPath (components path) = relative path := by
    rw [← components_relative]
    obtain hnil | hsingle := h
    · rw [hnil]
      rfl
    · rw [hsingle.components_eq, joinPath, List.intercalate_splitOn]
  rw [normalPath, hjoin, relative]
  split_ifs with hslash
  · obtain ⟨c, rest, rfl⟩ := List.exists_cons_of_ne_nil (show path ≠ [] by rintro rfl; cases hslash)
    obtain rfl : c = 0x2F#8 := by simpa using hslash
    rfl
  · rfl

end Paths

section Lookups

variable {fs : FAT32Driver} {dev : BlockDevice} {path : List Byte} {n current : Nat}

theorem names_ne_nil_of_ends (h : (entryNames n path).2 = true) : (entryNames n path).1 ≠ [] := by
  cases n with
  | zero => cases h
  | succ n =>
    rw [entryNames] at h ⊢
    split_ifs at h ⊢
    · simp
    · simp

theorem names_ne_nil (hpath : path ≠ []) (hn : path.length ≤ n) : (entryNames n path).1 ≠ [] := by
  obtain ⟨n, rfl⟩ := Nat.exists_eq_add_of_le' (Nat.le_trans (List.length_pos_iff.mpr hpath) hn)
  rw [entryNames, if_neg hpath]
  split_ifs
  · simp
  · simp

/-- The loop of `GetFileEntry` looks up the names of the path one after the other. -/
theorem resolveLoop_along : fs.resolveLoop dev n path current =
    fs.resolveAlong dev (entryNames n path).2 (entryNames n path).1 current := by
  induction n generalizing path current with
  | zero => rfl
  | succ n ih =>
    rw [resolveLoop_succ, entryNames]
    by_cases hpath : path = []
    · rw [if_pos hpath, if_pos hpath]
      rfl
    · rw [if_neg hpath, if_neg hpath]
      by_cases hrest : path.drop (segment path).length = []
      · rw [if_pos hrest, resolveAlong]
        cases fs.findSlot dev (segment path) current with
        | none => rfl
        | some s => exact (if_pos hrest).trans (if_pos ⟨rfl, rfl⟩).symm
      · rw [if_neg hrest, resolveAlong]
        cases fs.findSlot dev (segment path) current with
        | none => rfl
        | some s =>
          have hgo : ¬((entryNames n (behind path)).1 = [] ∧
              (entryNames n (behind path)).2 = true) :=
            fun h => names_ne_nil_of_ends h.2 h.1
          dsimp only
          rw [if_neg hrest, if_neg hgo, ih]

/-- The loop of `EnsureDirectory` looks up the segments of the path one after the other. -/
theorem ensureLoop_along :
    fs.ensureLoop n dev path current = fs.ensureAlong (segments n path) dev current := by
  induction n generalizing dev path current with
  | zero => rfl
  | succ n ih =>
    rw [ensureLoop_succ, segments]
    by_cases hseg : segment path = []
    · rw [if_pos hseg, if_pos hseg]
      rfl
    · rw [if_neg hseg, if_neg hseg, ensureAlong]
      cases fs.findDirectoryEntry dev (segment path) current with
      | none =>
        dsimp only
        rw [ih]
      | some entry =>
        dsimp only
        rw [ih]

/-- Without a name at the end a path leads to nothing. -/
theorem resolveAlong_open {names : List (List Byte)} :
    fs.resolveAlong dev false names current = none := by
  induction names generalizing current with
  | nil => rfl
  | cons x xs ih =>
    rw [resolveAlong]
    cases fs.findSlot dev x current with
    | none => rfl
    | some s =>
      dsimp only
      rw [if_neg fun hc => Bool.false_ne_true hc.2, ih, ite_self]

/-- Where `GetFileEntry` starts. -/
theorem resolve_along (fs : FAT32Driver) (dev : BlockDevice) (path : List Byte)
    (baseCluster : Nat) :
    fs.resolve dev path baseCluster =
      fs.resolveAlong dev (entryNames path.length (relative path)).2
        (entryNames path.length (relative path)).1
        (if path.head? = some 0x2F#8 then fs.rootClus else fs.directoryOf baseCluster) := by
  rw [resolve, relative]
  split_ifs
  · exact resolveLoop_along
  · exact resolveLoop_along

/-- On every device the names that the walkers look up are those of the path, and these are its
components if and only if, behind a slash at its start, the path is empty or has components of at
most 15 characters with single slashes between them. -/
theorem walks_components_iff (path : List Byte) :
    (∀ (fs : FAT32Driver) (dev : BlockDevice), fs.ensureDirectory dev path =
      fs.ensureAlong (segments path.length (relative path)) dev fs.rootClus) ∧
    (∀ (fs : FAT32Driver) (dev : BlockDevice) (baseCluster : Nat),
      fs.resolve dev path baseCluster =
        fs.resolveAlong dev (entryNames path.length (relative path)).2
          (entryNames path.length (relative path)).1
          (if path.head? = some 0x2F#8 then fs.rootClus else fs.directoryOf baseCluster)) ∧
    (WalksComponents path ↔ relative path = [] ∨ SinglySlashed (relative path)) := by
  have hn := length_relative_le path
  refine ⟨fun fs dev => ensureLoop_along, fun fs dev => resolve_along fs dev path, fun h => ?_,
    fun h => ?_⟩
  · have hlength := h.entry.length_eq
    refine or_iff_not_imp_left.mpr fun hnil => singlySlashed_of_length hn (h.ends.mpr ?_) ?_
    · rw [← List.length_pos_iff, ← hlength]
      exact List.length_pos_iff.mpr (names_ne_nil hnil hn)
    · rw [hlength, components_relative]
  · have hnames : segments path.length (relative path) = components path ∧
        (entryNames path.length (relative path)).1 = components path ∧
        ((entryNames path.length (relative path)).2 = true ↔ components path ≠ []) := by
      rw [← components_relative path]
      obtain hnil | hsingle := h
      · rw [hnil]
        cases path.length with
        | zero => exact ⟨rfl, rfl, iff_of_false Bool.false_ne_true fun h => h rfl⟩
        | succ n => exact ⟨rfl, rfl, iff_of_false Bool.false_ne_true fun h => h rfl⟩
      · obtain ⟨hentry, hensure⟩ := hsingle.names hn
        rw [hentry, hensure, hsingle.components_eq]
        exact ⟨rfl, rfl, iff_of_true rfl (List.splitOn_ne_nil _ _)⟩
    have hshort : Shortens (components path) (components path) :=
      List.forall₂_same.mpr fun x hx =>
        ⟨by simpa using (List.mem_filter.mp hx).2, List.prefix_rfl⟩
    exact
      { ensure := by rwa [hnames.1]
        entry := by rwa [hnames.2.1]
        ends := hnames.2.2
        ensure_normal := fun fs dev => by rw [normalPath_eq h]
        entry_normal := fun fs dev baseCluster => by rw [normalPath_eq h] }

end Lookups

/-- On a volume with the directory `A`, and for a component of 16 characters: the walkers split it,
`GetFileEntry` gets to nothing with a slash at the end, and with two slashes `EnsureDirectory`
leaves the second component out. -/
theorem components_not_walked :
    (entryNames 16 (List.replicate 16 0x61#8)).1 =
        [List.replicate 15 0x61#8, [0x61#8]] ∧
      components (List.replicate 16 0x61#8) = [List.replicate 16 0x61#8] ∧
      ¬WalksComponents (List.replicate 16 0x61#8) ∧
      (smallVolume.resolve (smallVolume.ensureDirectory ⟨blankDisk, []⟩ [0x61#8]).2
        [0x61#8] 0).isSome ∧
      smallVolume.resolve (smallVolume.ensureDirectory ⟨blankDisk, []⟩ [0x61#8]).2
        [0x61#8, 0x2F#8] 0 = none ∧
      segments 4 [0x61#8, 0x2F#8, 0x2F#8, 0x62#8] = [[0x61#8]] ∧
      components [0x61#8, 0x2F#8, 0x2F#8, 0x62#8] = [[0x61#8], [0x62#8]] := by
  refine ⟨by decide +kernel, by decide +kernel, fun h => ?_, by decide +kernel, by decide +kernel,
    by decide +kernel, by decide +kernel⟩
  have hlength := h.entry.length_eq
  have heval : (entryNames 16 (relative (List.replicate 16 0x61#8))).1.length = 2 ∧
      (components (List.replicate 16 0x61#8)).length = 1 := by
    decide +kernel
  exact absurd (heval.1.symm.trans (hlength.trans heval.2)) (by decide)

end Sylphia
