import Sylphia.Fat.Volume

/-!
# Changes of a directory

One slot of a directory gets another entry: a new one, one with another size, or one that
is marked as deleted. The rest of the volume stays sound and as it is.
-/

namespace Sylphia

open Bytes Chain

section Live

variable {V V' : View} {s : Slot} {pre post ss : List Slot}

theorem live_append (h : ∀ t ∈ pre, (V.entry t).first ≠ 0) :
    V.live (pre ++ ss) = V.live pre ++ V.live ss := by
  induction pre with
  | nil => rfl
  | cons t pre ih =>
    have ht := h t (List.mem_cons_self ..)
    rw [List.cons_append, View.live, View.live, if_neg ht, if_neg ht,
      ih fun x hx => h x (List.mem_cons_of_mem _ hx)]
    split <;> rfl

theorem live_cons (h : (V.entry s).first = 0 → ∀ t ∈ post, (V.entry t).first = 0) :
    V.live (s :: post) = (if (V.entry s).isLive then [s] else []) ++ V.live post := by
  rw [View.live]
  by_cases h0 : (V.entry s).first = 0
  · have hdead : (V.entry s).isLive = false := by
      rw [DirectoryEntry.isLive, h0]
      rfl
    rw [if_pos h0, hdead, live_of_zero (h h0)]
    rfl
  · rw [if_neg h0]
    split <;> rfl

theorem live_mono (V : View) (ss ts : List Slot) : ∀ t ∈ V.live ss, t ∈ V.live (ss ++ ts) := by
  induction ss with
  | nil => exact fun t ht => by cases ht
  | cons x ss ih =>
    intro t ht
    rw [List.cons_append, View.live] at *
    split at ht
    · cases ht
    · next h0 =>
      rw [if_neg h0]
      split at ht
      · next hl =>
        rw [if_pos hl]
        rcases List.mem_cons.mp ht with rfl | ht
        · exact List.mem_cons_self ..
        · exact List.mem_cons_of_mem _ (ih t ht)
      · next hl =>
        rw [if_neg hl]
        exact ih t ht

theorem name_of_find {name : List Byte} (h : V.find name ss = some s) :
    isNameEqual (V.entry s).name name = true := by
  have hp := List.find?_some (show (V.live ss).find? _ = some s from h)
  exact hp

theorem mem_of_find {name : List Byte} (h : V.find name ss = some s) : s ∈ V.live ss :=
  List.mem_of_find?_eq_some (show (V.live ss).find? _ = some s from h)

private theorem toUpper_ne_dot {c : Byte} (hc : c ≠ 0x2E#8) : toUpper c ≠ 0x2E#8 := by
  revert c
  decide

/-- A name in the 8.3 format does not start with a dot. -/
theorem head?_to83Format (src : List Byte) : (to83Format src).head? ≠ some 0x2E#8 := by
  rw [to83Format]
  cases src with
  | nil => simp [padTo]
  | cons c cs =>
    by_cases hc : c = 0x2E#8
    · simp [hc, padTo]
    · simpa [hc, padTo] using toUpper_ne_dot hc

/-- The first character that names are compared with is no dot. -/
theorem head?_convertName (name : List Byte) : (convertName name).head? ≠ some 0x2E#8 := by
  rw [convertName]
  split
  · next hn =>
    rw [List.head?_map]
    cases hh : name.head? with
    | none => simp
    | some c =>
      have hc : c ≠ 0x2E#8 := by
        rintro rfl
        exact hn.2 (List.mem_of_head? hh)
      simpa using toUpper_ne_dot hc
  · exact head?_to83Format name

theorem isDot_of_isNameEqual {e : DirectoryEntry} {name : List Byte}
    (h : isNameEqual e.name name = true) : e.isDot = false := by
  have hname : e.name = convertName name := by simpa [isNameEqual] using h
  have hfirst := head?_convertName name
  rw [← hname] at hfirst
  rw [DirectoryEntry.isDot, Bool.or_eq_false_iff]
  constructor <;>
  · rw [beq_eq_false_iff_ne]
    intro hc
    exact hfirst (by rw [hc]; rfl)

end Live

/-- An entry that owns a chain of its own: live, and not `.` or `..`. -/
def DirectoryEntry.owner (e : DirectoryEntry) : Bool := e.isLive && !e.isDot

theorem Listed.owner {fs : FAT32Driver} {V : View} {s : Slot} (h : Listed fs V s) :
    (V.entry s).owner = true := by
  obtain ⟨_, _, -, -, hlive, hdot⟩ := h
  rw [DirectoryEntry.owner, isLive_of_mem_live hlive, hdot]
  rfl

/-- One slot of a directory gets another entry. A directory does not change its place; a new
one has only `.` and `..`. -/
structure SlotWrite (fs : FAT32Driver) (V V' : View) (d : Nat) (ds : List Nat) (s : Slot) :
    Prop where
  directory : IsDirectory fs V d
  chain : ClusterChain fs V d ds
  mem : s ∈ fs.slots ds
  fat : V'.fat = V.fat
  others : ∀ t, t ≠ s → t.index < fs.slotsPerCluster → V'.entry t = V.entry t
  otherData : ∀ x, x ≠ s.cluster → V'.data x = V.data x
  noDirectory : (V'.entry s).owner = true → (V.entry s).owner = true →
    (V.entry s).isDirectory = true → (V.entry s).firstCluster = 0
  owns : (V'.entry s).owner = true → (V'.entry s).firstCluster ≠ 0 →
    ∃ cs, ClusterChain fs V (V'.entry s).firstCluster cs ∧
      (∀ o c es, Owns fs V o c → o ≠ .slot s → ClusterChain fs V c es → ∀ x ∈ cs, x ∉ es) ∧
      ((V'.entry s).isDirectory = true → V.Ended (fs.slots cs) ∧
        ∀ t ∈ V.live (fs.slots cs), (V.entry t).isDot = true)

namespace SlotWrite

variable {fs : FAT32Driver} {V V' : View} {d c x : Nat} {ds cs : List Nat} {s t : Slot}

theorem chain_iff (h : SlotWrite fs V V' d ds s) :
    ClusterChain fs V' c cs ↔ ClusterChain fs V c cs := by
  have hnext : V'.next = V.next := funext fun x => by rw [View.next, View.next, h.fat]
  rw [ClusterChain, ClusterChain, hnext]

/-- The slot is in no other directory. -/
theorem not_mem_other (h : SlotWrite fs V V' d ds s) (hv : SoundVolume fs V)
    {d' : Nat} {ds' : List Nat} (hd' : IsDirectory fs V d') (hc' : ClusterChain fs V d' ds')
    (hne : d' ≠ d) : s.cluster ∉ ds' := by
  intro hmem
  exact hne (hv.directory_unique hd' h.directory hc' h.chain hmem (mem_slots.mp h.mem).1)

theorem entry_other (h : SlotWrite fs V V' d ds s) (hs : s.cluster ∉ cs)
    (ht : t ∈ fs.slots cs) : V'.entry t = V.entry t := by
  refine h.others t ?_ (mem_slots.mp ht).2
  rintro rfl
  exact hs (mem_slots.mp ht).1

theorem listed_entry (h : SlotWrite fs V V' d ds s) (ht : Listed fs V t) (hts : t ≠ s) :
    V'.entry t = V.entry t := by
  obtain ⟨d', ds', -, -, ht, -⟩ := ht
  exact h.others t hts (mem_slots.mp (live_subset V _ t ht)).2

/-- No owner of a directory is the slot. -/
private theorem owner_ne (h : SlotWrite fs V V' d ds s) (hs : (V'.entry s).owner = true)
    {d' : Nat} (hd' : IsDirectory fs V d') : ∃ o, Owns fs V o d' ∧ o ≠ .slot s := by
  obtain ⟨o, ho, hodir⟩ := hd'.owner
  refine ⟨o, ho, ?_⟩
  rintro rfl
  obtain ⟨hlist, hfirst, h0⟩ := ho
  exact h0 (hfirst ▸ h.noDirectory hs hlist.owner (hodir s rfl))

/-- The clusters of a directory that the entry makes are new. -/
theorem new_apart (h : SlotWrite fs V V' d ds s) (hs : (V'.entry s).owner = true)
    (hcs : ∀ o c es, Owns fs V o c → o ≠ .slot s → ClusterChain fs V c es → ∀ x ∈ cs, x ∉ es) :
    s.cluster ∉ cs := by
  intro hmem
  obtain ⟨o, ho, hne⟩ := h.owner_ne hs h.directory
  exact hcs o d ds ho hne h.chain s.cluster hmem (mem_slots.mp h.mem).1

section Back

variable (h : SlotWrite fs V V' d ds s) (hv : SoundVolume fs V)
  (hback : ∀ t ∈ V'.live (fs.slots ds), t ≠ s → t ∈ V.live (fs.slots ds))
include h hv hback

/-- The directories there are afterwards. -/
theorem isDirectory_cases (hx : IsDirectory fs V' x) : IsDirectory fs V x ∨
    ((V'.entry s).owner = true ∧ (V'.entry s).isDirectory = true ∧
      (V'.entry s).firstCluster ≠ 0 ∧ x = (V'.entry s).firstCluster) := by
  induction hx with
  | root => exact Or.inl .root
  | @sub d' ds' t _ hc' ht hdir hdot h0 ih =>
    rw [h.chain_iff] at hc'
    rcases ih with hd' | ⟨howner, hsdir, hs0, rfl⟩
    · by_cases hts : t = s
      · subst hts
        refine Or.inr ⟨?_, hdir, h0, rfl⟩
        rw [DirectoryEntry.owner, isLive_of_mem_live ht, hdot]
        rfl
      · have he : V'.entry t = V.entry t :=
          h.others t hts (mem_slots.mp (live_subset V' _ t ht)).2
        rw [he] at hdir hdot h0 ⊢
        refine Or.inl (.sub hd' hc' ?_ hdir hdot h0)
        by_cases hdd : d' = d
        · subst hdd
          obtain rfl := hc'.unique h.chain
          exact hback t ht hts
        · rwa [live_congr fun u hu => h.entry_other (h.not_mem_other hv hd' hc' hdd) hu] at ht
    · -- A new directory has only `.` and `..`.
      obtain ⟨cs, hcs, hapart, hnew⟩ := h.owns howner hs0
      obtain rfl := hc'.unique hcs
      have hnot := h.new_apart howner hapart
      rw [live_congr fun u hu => h.entry_other hnot hu] at ht
      rw [h.entry_other hnot (live_subset V _ t ht), (hnew hsdir).2 t ht] at hdot
      cases hdot

/-- The slots that are listed afterwards. -/
theorem listed_cases (ht : Listed fs V' t) :
    (t ≠ s ∧ Listed fs V t) ∨ (t = s ∧ (V'.entry s).owner = true) := by
  obtain ⟨d', ds', hd', hc', ht, hdot⟩ := ht
  rw [h.chain_iff] at hc'
  by_cases hts : t = s
  · subst hts
    refine Or.inr ⟨rfl, ?_⟩
    rw [DirectoryEntry.owner, isLive_of_mem_live ht, hdot]
    rfl
  · rcases h.isDirectory_cases hv hback hd' with hd' | ⟨howner, hsdir, hs0, rfl⟩
    · rw [h.others t hts (mem_slots.mp (live_subset V' _ t ht)).2] at hdot
      refine Or.inl ⟨hts, d', ds', hd', hc', ?_, hdot⟩
      by_cases hdd : d' = d
      · subst hdd
        obtain rfl := hc'.unique h.chain
        exact hback t ht hts
      · rwa [live_congr fun u hu => h.entry_other (h.not_mem_other hv hd' hc' hdd) hu] at ht
    · obtain ⟨cs, hcs, hapart, hnew⟩ := h.owns howner hs0
      obtain rfl := hc'.unique hcs
      have hnot := h.new_apart howner hapart
      rw [live_congr fun u hu => h.entry_other hnot hu] at ht
      rw [h.entry_other hnot (live_subset V _ t ht), (hnew hsdir).2 t ht] at hdot
      cases hdot

/-- Who owns what afterwards. -/
theorem owns_cases {o : Owner} (ho : Owns fs V' o c) : (o ≠ .slot s ∧ Owns fs V o c) ∨
    (o = .slot s ∧ (V'.entry s).owner = true ∧ (V'.entry s).firstCluster = c ∧ c ≠ 0) := by
  cases o with
  | root => exact Or.inl ⟨by simp, ho⟩
  | slot t =>
    obtain ⟨ht, hc, h0⟩ := ho
    rcases h.listed_cases hv hback ht with ⟨hts, ht⟩ | ⟨rfl, howner⟩
    · rw [h.listed_entry ht hts] at hc
      exact Or.inl ⟨fun hst => hts (Owner.slot.inj hst), ht, hc, h0⟩
    · exact Or.inr ⟨rfl, howner, hc, h0⟩

/-- Every owner has a chain afterwards. -/
theorem chains {o : Owner} (ho : Owns fs V' o c) : ∃ cs, ClusterChain fs V' c cs := by
  rcases h.owns_cases hv hback ho with ⟨-, ho⟩ | ⟨-, howner, rfl, h0⟩
  · obtain ⟨cs, hc⟩ := hv.chains o c ho
    exact ⟨cs, h.chain_iff.mpr hc⟩
  · obtain ⟨cs, hc, -⟩ := h.owns howner h0
    exact ⟨cs, h.chain_iff.mpr hc⟩

end Back

end SlotWrite

/-- A slot that a search reaches before and afterwards gets another entry. -/
structure SlotChange (fs : FAT32Driver) (V V' : View) (d : Nat) (ds : List Nat)
    (pre : List Slot) (s : Slot) (post : List Slot) : Prop extends SlotWrite fs V V' d ds s where
  slots : fs.slots ds = pre ++ s :: post
  reached : ∀ t ∈ pre, (V.entry t).first ≠ 0
  used : (V'.entry s).first ≠ 0
  sized : (V'.entry s).owner = true → (V'.entry s).isDirectory = false →
    (V'.entry s).fileSize > 0 → (V'.entry s).firstCluster ≠ 0
  name : (V'.entry s).isLive = true →
    ((V.entry s).isLive = true ∧ (V'.entry s).name = (V.entry s).name) ∨
      ∀ t ∈ V.live (fs.slots ds), (V.entry t).name ≠ (V'.entry s).name

namespace SlotChange

variable {fs : FAT32Driver} {V V' : View} {d c x : Nat} {ds cs : List Nat} {pre post : List Slot}
  {s t : Slot}

private theorem nodup (h : SlotChange fs V V' d ds pre s post) : (pre ++ s :: post).Nodup :=
  h.slots ▸ nodup_slots h.chain.nodup

private theorem rest (h : SlotChange fs V V' d ds pre s post) (ht : t ∈ pre ∨ t ∈ post) :
    t ≠ s ∧ V'.entry t = V.entry t := by
  have hnd := h.nodup
  rw [List.nodup_append, List.nodup_cons] at hnd
  have hmem : t ∈ fs.slots ds := by
    rw [h.slots]
    rcases ht with ht | ht <;> simp [ht]
  have hne : t ≠ s := by
    rcases ht with ht | ht
    · exact hnd.2.2 t ht s (List.mem_cons_self ..)
    · rintro rfl
      exact hnd.2.1.1 ht
  exact ⟨hne, h.others t hne (mem_slots.mp hmem).2⟩

/-- The live slots before and afterwards. -/
theorem live_eq (h : SlotChange fs V V' d ds pre s post) (hv : SoundVolume fs V) :
    V.live (fs.slots ds) =
        V.live pre ++ ((if (V.entry s).isLive then [s] else []) ++ V.live post) ∧
      V'.live (fs.slots ds) =
        V.live pre ++ ((if (V'.entry s).isLive then [s] else []) ++ V.live post) := by
  have hended : V.Ended (pre ++ s :: post) := h.slots ▸ hv.ended d ds h.directory h.chain
  have hpost := (List.pairwise_cons.mp (List.pairwise_append.mp hended).2.1).1
  have hpre' : ∀ t ∈ pre, (V'.entry t).first ≠ 0 := fun t ht => by
    rw [(h.rest (Or.inl ht)).2]
    exact h.reached t ht
  rw [h.slots]
  constructor
  · rw [live_append h.reached, live_cons fun h0 t ht => hpost t ht h0]
  · rw [live_append hpre', live_cons fun h0 => absurd h0 h.used,
      live_congr fun t ht => (h.rest (Or.inl ht)).2,
      live_congr fun t ht => (h.rest (Or.inr ht)).2]

theorem mem_live_iff (h : SlotChange fs V V' d ds pre s post) (hv : SoundVolume fs V) :
    t ∈ V'.live (fs.slots ds) ↔
      (t ≠ s ∧ t ∈ V.live (fs.slots ds)) ∨ (t = s ∧ (V'.entry s).isLive = true) := by
  obtain ⟨hold, hnew⟩ := h.live_eq hv
  have hnot : s ∉ V.live pre ∧ s ∉ V.live post :=
    ⟨fun hs => (h.rest (Or.inl (live_subset V _ s hs))).1 rfl,
      fun hs => (h.rest (Or.inr (live_subset V _ s hs))).1 rfl⟩
  rw [hold, hnew]
  by_cases hts : t = s
  · subst hts
    cases hl : (V'.entry t).isLive <;> simp [hnot.1, hnot.2]
  · have hone (b : Bool) : t ∉ (if b = true then [s] else []) := by cases b <;> simp [hts]
    simp only [List.mem_append, hone, false_or, hts, false_and, or_false, ne_eq, not_false_eq_true,
      true_and]

theorem back (h : SlotChange fs V V' d ds pre s post) (hv : SoundVolume fs V) :
    ∀ t ∈ V'.live (fs.slots ds), t ≠ s → t ∈ V.live (fs.slots ds) := by
  intro t ht hts
  rcases (h.mem_live_iff hv).mp ht with ⟨-, ht⟩ | ⟨rfl, -⟩
  · exact ht
  · exact absurd rfl hts

/-- The volume stays sound. -/
theorem sound (h : SlotChange fs V V' d ds pre s post) (hv : SoundVolume fs V) :
    SoundVolume fs V' where
  chains := fun o c ho => h.chains hv (h.back hv) ho
  disjoint := fun o o' c c' cs cs' ho ho' hne hc hc' x hx hx' => by
    rw [h.chain_iff] at hc hc'
    rcases h.owns_cases hv (h.back hv) ho with ⟨hos, ho⟩ | ⟨rfl, howner, rfl, h0⟩ <;>
      rcases h.owns_cases hv (h.back hv) ho' with ⟨hos', ho'⟩ | ⟨rfl, howner', rfl, h0'⟩
    · exact hv.disjoint o o' c c' cs cs' ho ho' hne hc hc' x hx hx'
    · obtain ⟨es, he, hapart, -⟩ := h.owns howner' h0'
      obtain rfl := he.unique hc'
      exact hapart o c cs ho hos hc x hx' hx
    · obtain ⟨es, he, hapart, -⟩ := h.owns howner h0
      obtain rfl := he.unique hc
      exact hapart o' c' cs' ho' hos' hc' x hx hx'
    · exact hne rfl
  ended := fun d' ds' hd' hc' => by
    rw [h.chain_iff] at hc'
    rcases h.isDirectory_cases hv (h.back hv) hd' with hd' | ⟨howner, hsdir, hs0, rfl⟩
    · by_cases hdd : d' = d
      · subst hdd
        obtain rfl := hc'.unique h.chain
        have hended : V.Ended (pre ++ s :: post) := h.slots ▸ hv.ended d' ds' hd' hc'
        obtain ⟨hpre, hcons, hcross⟩ := List.pairwise_append.mp hended
        obtain ⟨-, hpost⟩ := List.pairwise_cons.mp hcons
        rw [View.Ended, h.slots, List.pairwise_append, List.pairwise_cons]
        refine ⟨ended_congr (fun t ht => (h.rest (Or.inl ht)).2) hpre,
          ⟨fun t _ h0 => absurd h0 h.used,
            ended_congr (fun t ht => (h.rest (Or.inr ht)).2) hpost⟩, fun t ht u _ h0 => ?_⟩
        rw [(h.rest (Or.inl ht)).2] at h0
        exact absurd h0 (h.reached t ht)
      · exact ended_congr (fun u hu => h.entry_other (h.not_mem_other hv hd' hc' hdd) hu)
          (hv.ended d' ds' hd' hc')
    · obtain ⟨cs, hcs, hapart, hnew⟩ := h.owns howner hs0
      obtain rfl := hc'.unique hcs
      exact ended_congr (fun u hu => h.entry_other (h.new_apart howner hapart) hu) (hnew hsdir).1
  sized := fun t ht hregular hsize => by
    rcases h.listed_cases hv (h.back hv) ht with ⟨hts, ht⟩ | ⟨rfl, howner⟩
    · rw [h.listed_entry ht hts] at hregular hsize ⊢
      exact hv.sized t ht hregular hsize
    · exact h.sized howner hregular hsize

/-- The clusters of the other files are not those of a directory. -/
private theorem file_data (h : SlotChange fs V V' d ds pre s post) (hv : SoundVolume fs V)
    (ht : Listed fs V t) (hfile : (V.entry t).isDirectory = false)
    (hc : ClusterChain fs V (V.entry t).firstCluster cs) (hx : x ∈ cs) :
    V'.data x = V.data x := by
  refine h.otherData x ?_
  rintro rfl
  exact hv.file_apart h.directory h.chain ht hfile hc _ hx (mem_slots.mp h.mem).1

/-- What a search that does not end at the slot finds, it finds afterwards. -/
private theorem find_of (h : SlotChange fs V V' d ds pre s post)
    {ss post' : List Slot} (hss : ss = pre ++ s :: post') (hpost : ∀ u ∈ post', u ∈ post)
    (hended : (V.entry s).first = 0 → ∀ u ∈ post', (V.entry u).first = 0) {name : List Byte}
    (hmem : ∀ u ∈ V.live ss, u ∈ V.live (fs.slots ds)) (hfind : V.find name ss = some t)
    (hts : t ≠ s) : V'.find name ss = some t := by
  have hmatch {u : Slot} (hu : u ∈ pre ∨ u ∈ post') :
      V'.entry u = V.entry u := (h.rest (hu.imp_right (hpost u))).2
  have hname : (V'.entry s).isLive = true → isNameEqual (V'.entry s).name name = true →
      (V.entry s).isLive = true ∧ isNameEqual (V.entry s).name name = true := by
    intro hl hm
    rcases h.name hl with ⟨hl', hsame⟩ | habsent
    · exact ⟨hl', hsame ▸ hm⟩
    · have htm : isNameEqual (V.entry t).name name = true := name_of_find hfind
      rw [isNameEqual, beq_iff_eq] at htm hm
      exact absurd (htm.trans hm.symm) (habsent t (hmem t (List.mem_of_find?_eq_some hfind)))
  have hpre' : ∀ u ∈ pre, (V'.entry u).first ≠ 0 := fun u hu => by
    rw [hmatch (Or.inl hu)]
    exact h.reached u hu
  rw [View.find, hss, live_append h.reached, live_cons hended, List.find?_append,
    List.find?_append] at hfind
  rw [View.find, hss, live_append hpre', live_cons fun h0 => absurd h0 h.used, List.find?_append,
    List.find?_append]
  have hbefore : (V'.live pre).find? (fun u => isNameEqual (V'.entry u).name name) =
      (V.live pre).find? fun u => isNameEqual (V.entry u).name name :=
    find_congr name fun u hu => hmatch (Or.inl hu)
  have hbehind : (V'.live post').find? (fun u => isNameEqual (V'.entry u).name name) =
      (V.live post').find? fun u => isNameEqual (V.entry u).name name :=
    find_congr name fun u hu => hmatch (Or.inr hu)
  rw [hbefore, hbehind]
  cases hp : (V.live pre).find? fun u => isNameEqual (V.entry u).name name with
  | some u =>
    rw [hp] at hfind
    exact hfind
  | none =>
    rw [hp, Option.none_or] at hfind
    rw [Option.none_or]
    -- The slot itself is not what was found, and so it does not have the name.
    have hold : ((if (V.entry s).isLive then [s] else []).find? fun u =>
        isNameEqual (V.entry u).name name) = none := by
      by_contra hsome
      obtain ⟨u, hu⟩ := Option.ne_none_iff_exists'.mp hsome
      rw [hu, Option.some_or, Option.some.injEq] at hfind
      have hmem := List.mem_of_find?_eq_some hu
      split at hmem
      · exact hts (hfind.symm.trans (List.mem_singleton.mp hmem))
      · cases hmem
    have hnew : ((if (V'.entry s).isLive then [s] else []).find? fun u =>
        isNameEqual (V'.entry u).name name) = none := by
      split
      · next hl =>
        rw [List.find?_eq_none]
        intro u hu hm
        obtain rfl := List.mem_singleton.mp hu
        obtain ⟨hl', hm'⟩ := hname hl hm
        rw [if_pos hl', List.find?_eq_none] at hold
        exact hold u (List.mem_singleton_self u) hm'
      · rfl
    rw [hold, Option.none_or] at hfind
    rw [hnew, Option.none_or]
    exact hfind

/-- A search finds the entry whose name is new. -/
theorem find_new (h : SlotChange fs V V' d ds pre s post) (hv : SoundVolume fs V)
    {name : List Byte} (hlive : (V'.entry s).isLive = true)
    (hname : isNameEqual (V'.entry s).name name = true)
    (habsent : ∀ t ∈ V.live (fs.slots ds), isNameEqual (V.entry t).name name = false) :
    V'.find name (fs.slots ds) = some s := by
  cases hfind : V'.find name (fs.slots ds) with
  | none =>
    rw [View.find, List.find?_eq_none] at hfind
    exact absurd hname (hfind s ((h.mem_live_iff hv).mpr (Or.inr ⟨rfl, hlive⟩)))
  | some t =>
    rcases (h.mem_live_iff hv).mp (mem_of_find hfind) with ⟨hts, ht⟩ | ⟨rfl, -⟩
    · have hmatch := name_of_find hfind
      rw [h.others t hts (mem_slots.mp (live_subset V _ t ht)).2, habsent t ht] at hmatch
      cases hmatch
    · rfl

/-- A search does not see what changes in an entry that keeps its name. -/
theorem find_kept (h : SlotChange fs V V' d ds pre s post) (hv : SoundVolume fs V)
    {name : List Byte} (hold : (V.entry s).isLive = true) (hnew : (V'.entry s).isLive = true)
    (hname : (V'.entry s).name = (V.entry s).name) :
    V'.find name (fs.slots ds) = V.find name (fs.slots ds) := by
  obtain ⟨hlive, hlive'⟩ := h.live_eq hv
  rw [if_pos hold] at hlive
  rw [if_pos hnew, ← hlive] at hlive'
  rw [View.find, View.find, hlive']
  refine List.find?_congr fun t ht => ?_
  by_cases hts : t = s
  · rw [hts, hname]
  · rw [h.others t hts (mem_slots.mp (live_subset V _ t ht)).2]

/-- A search finds nothing when it would have found the slot that is not live any more. -/
theorem find_gone (h : SlotChange fs V V' d ds pre s post) (hv : SoundVolume fs V)
    {name : List Byte} (hdead : (V'.entry s).isLive = false)
    (honly : ∀ t ∈ V.live (fs.slots ds), isNameEqual (V.entry t).name name = true → t = s) :
    V'.find name (fs.slots ds) = none := by
  rw [View.find, List.find?_eq_none]
  intro t ht hmatch
  rcases (h.mem_live_iff hv).mp ht with ⟨hts, ht⟩ | ⟨-, hlive⟩
  · rw [h.others t hts (mem_slots.mp (live_subset V _ t ht)).2] at hmatch
    exact hts (honly t ht hmatch)
  · rw [hdead] at hlive
    cases hlive

end SlotChange

/-- A change of a slot with which no directory goes. -/
structure SlotUpdate (fs : FAT32Driver) (V V' : View) (d : Nat) (ds : List Nat)
    (pre : List Slot) (s : Slot) (post : List Slot) : Prop
    extends SlotChange fs V V' d ds pre s post where
  keeps : (V.entry s).owner = true → (V.entry s).isDirectory = true → (V.entry s).firstCluster = 0

namespace SlotUpdate

variable {fs : FAT32Driver} {V V' : View} {d c x : Nat} {ds cs : List Nat} {pre post : List Slot}
  {s t : Slot}

/-- The directories that there were stay. -/
theorem isDirectory_of (h : SlotUpdate fs V V' d ds pre s post) (hv : SoundVolume fs V)
    (hx : IsDirectory fs V x) : IsDirectory fs V' x := by
  induction hx with
  | root => exact .root
  | @sub d' ds' t hd' hc' ht hdir hdot h0 ih =>
    have hts : t ≠ s := by
      rintro rfl
      exact h0 (h.keeps (Listed.owner ⟨d', ds', hd', hc', ht, hdot⟩) hdir)
    have he : V'.entry t = V.entry t :=
      h.others t hts (mem_slots.mp (live_subset V _ t ht)).2
    have hlive : t ∈ V'.live (fs.slots ds') := by
      by_cases hdd : d' = d
      · subst hdd
        obtain rfl := hc'.unique h.chain
        exact (h.mem_live_iff hv).mpr (Or.inl ⟨hts, ht⟩)
      · rw [live_congr fun u hu => h.entry_other (h.not_mem_other hv hd' hc' hdd) hu]
        exact ht
    rw [← he] at hdir hdot h0 ⊢
    exact .sub ih (h.chain_iff.mpr hc') hlive hdir hdot h0

/-- The slots that are listed afterwards. -/
theorem listed_iff (h : SlotUpdate fs V V' d ds pre s post) (hv : SoundVolume fs V) :
    Listed fs V' t ↔ (t ≠ s ∧ Listed fs V t) ∨ (t = s ∧ (V'.entry s).owner = true) := by
  constructor
  · exact h.listed_cases hv (h.back hv)
  · rintro (⟨hts, d', ds', hd', hc', ht, hdot⟩ | ⟨rfl, howner⟩)
    · have he : V'.entry t = V.entry t :=
        h.others t hts (mem_slots.mp (live_subset V _ t ht)).2
      rw [← he] at hdot
      refine ⟨d', ds', h.isDirectory_of hv hd', h.chain_iff.mpr hc', ?_, hdot⟩
      by_cases hdd : d' = d
      · subst hdd
        obtain rfl := hc'.unique h.chain
        exact (h.mem_live_iff hv).mpr (Or.inl ⟨hts, ht⟩)
      · rw [live_congr fun u hu => h.entry_other (h.not_mem_other hv hd' hc' hdd) hu]
        exact ht
    · rw [DirectoryEntry.owner, Bool.and_eq_true, Bool.not_eq_true'] at howner
      exact ⟨d, ds, h.isDirectory_of hv h.directory, h.chain_iff.mpr h.chain,
        (h.mem_live_iff hv).mpr (Or.inr ⟨rfl, howner.1⟩), howner.2⟩

/-- Who owns what afterwards. -/
theorem owns_iff (h : SlotUpdate fs V V' d ds pre s post) (hv : SoundVolume fs V) {o : Owner} :
    Owns fs V' o c ↔ (o ≠ .slot s ∧ Owns fs V o c) ∨
      (o = .slot s ∧ (V'.entry s).owner = true ∧ (V'.entry s).firstCluster = c ∧ c ≠ 0) := by
  constructor
  · exact h.owns_cases hv (h.back hv)
  · rintro (⟨hne, ho⟩ | ⟨rfl, howner, hc, h0⟩)
    · cases o with
      | root => exact ho
      | slot t =>
        obtain ⟨ht, hc, h0⟩ := ho
        have hts : t ≠ s := fun hts => hne (congrArg Owner.slot hts)
        rw [← h.listed_entry ht hts] at hc
        exact ⟨(h.listed_iff hv).mpr (Or.inl ⟨hts, ht⟩), hc, h0⟩
    · exact ⟨(h.listed_iff hv).mpr (Or.inr ⟨rfl, howner⟩), hc, h0⟩

/-- What the change leaves to everyone but the slot. -/
theorem kept (h : SlotUpdate fs V V' d ds pre s post) (hv : SoundVolume fs V) :
    Kept fs (some s) V V' where
  dirs := fun d' ds' hd' hc' => ⟨h.isDirectory_of hv hd', h.chain_iff.mpr hc'⟩
  find := fun d' ds' hd' hc' n name t hfind hT => by
    have hts : t ≠ s := fun hts => hT (congrArg some hts.symm)
    have htlive := mem_of_find hfind
    have hte : V'.entry t = V.entry t :=
      h.others t hts (mem_slots.mp (live_subset V _ t htlive)).2
    refine ⟨?_, hte⟩
    by_cases hs : s ∈ fs.slots (ds'.take n)
    · have hdd : d' = d := by
        by_contra hdd
        exact h.not_mem_other hv hd' hc' hdd (List.mem_of_mem_take (mem_slots.mp hs).1)
      subst hdd
      obtain rfl := hc'.unique h.chain
      have hsplit := (slots_take fs ds' n).symm.trans h.slots
      have hnd := h.nodup
      rw [List.nodup_append] at hnd
      rcases List.append_eq_append_iff.mp hsplit with ⟨as, hpre, -⟩ | ⟨as, hss, hrest⟩
      · exact absurd rfl (hnd.2.2 s (hpre ▸ List.mem_append_left _ hs) s (List.mem_cons_self ..))
      · cases as with
        | nil =>
          rw [List.append_nil] at hss
          exact absurd rfl (hnd.2.2 s (hss ▸ hs) s (List.mem_cons_self ..))
        | cons u as =>
          obtain ⟨rfl, hpost⟩ := List.cons.inj hrest
          have hended := hv.ended d' ds' hd' hc'
          rw [h.slots] at hended
          have hzero := (List.pairwise_cons.mp (List.pairwise_append.mp hended).2.1).1
          have hmono (w : Slot) (hw : w ∈ V.live (fs.slots (ds'.take n))) :
              w ∈ V.live (fs.slots ds') := by
            rw [slots_take fs ds' n]
            exact live_mono V _ _ w hw
          refine h.find_of hss (fun w hw => ?_) (fun h0 w hw => hzero w ?_ h0) hmono hfind hts
          · rw [hpost]
            exact List.mem_append_left _ hw
          · rw [hpost]
            exact List.mem_append_left _ hw
    · rw [find_congr name fun u hu => ?_]
      · exact hfind
      · refine h.others u ?_ (mem_slots.mp hu).2
        rintro rfl
        exact hs hu
  files := fun t cs ht hT hfile hc => by
    have hts : t ≠ s := fun hts => hT (congrArg some hts.symm)
    exact ⟨(h.listed_iff hv).mpr (Or.inl ⟨hts, ht⟩), h.listed_entry ht hts, h.chain_iff.mpr hc,
      fun x hx => h.file_data hv ht hfile hc hx⟩

end SlotUpdate

end Sylphia
