import Sylphia.Paging.Shape

/-!
# The tables that a page lacks

Mapping a page takes one frame for each level at which the walk of the page meets no table, and
makes a table there. If frames run out on the way, all of them are taken and the page stays
unmapped.
-/

namespace Sylphia

open RadixTree PageTableEntry

/-- The levels from `m` up at which the walk of a page meets no table. -/
def lacking (memory : Nat → Nat → PageTableEntry) (root page m : Nat) : Finset Nat :=
  (Finset.Ico m 3).filter fun k => pageFormat.meets memory k 3 root page = none

theorem card_lacking_succ {memory : Nat → Nat → PageTableEntry} {root page m : Nat} (hm : m < 3) :
    (lacking memory root page m).card = (lacking memory root page (m + 1)).card +
      if pageFormat.meets memory m 3 root page = none then 1 else 0 := by
  have hinsert : Finset.Ico m 3 = insert m (Finset.Ico (m + 1) 3) := by
    ext k
    rw [Finset.mem_insert, Finset.mem_Ico, Finset.mem_Ico]
    omega
  rw [lacking, lacking, hinsert, Finset.filter_insert]
  split
  · rw [Finset.card_insert_of_notMem]
    simp
  · rfl

/-- The walk of the page has been extended down to level `m`: tables have been made at the
levels that had none, one frame was taken for each, and all other walks meet what they met. -/
structure Reaches (root page m : Nat) (pm pm' : PageManager) : Prop where
  meets : ∀ k ≤ 3, ∀ q < 2 ^ 36, (pageFormat.meets pm'.memory k 3 root q).isSome =
    ((pageFormat.meets pm.memory k 3 root q).isSome ||
      decide (m ≤ k ∧ pageFormat.place k q = pageFormat.place k page))
  frames : pm'.frames.bitmap.freeFrames + (lacking pm.memory root page m).card =
    pm.frames.bitmap.freeFrames
  taken : ∀ f, pm.frames.bitmap.get f = false → pm'.frames.bitmap.get f = true →
    ∃ k, pageFormat.meets pm'.memory k 3 root page = some f

theorem PageManager.TakesFrame.freeFrames {frames frames' : MemoryManager} {f : Nat}
    (h : TakesFrame frames f frames') :
    frames'.bitmap.freeFrames + 1 = frames.bitmap.freeFrames := by
  rw [Bitmap.freeFrames, Bitmap.freeFrames, h.freeSet]
  exact Finset.card_erase_add_one (Bitmap.mem_freeSet.mpr h.free)

namespace Reaches

variable {root page m c : Nat} {pm pm₁ pm' : PageManager}

theorem refl (root page : Nat) (pm : PageManager) : Reaches root page 3 pm pm := by
  refine ⟨fun k hk q hq => ?_, ?_, fun f hfree hused => ?_⟩
  · by_cases h3 : k = 3
    · rw [h3, Format.meets, if_pos rfl]
      rfl
    · rw [decide_eq_false (by omega), Bool.or_false]
  · rw [lacking, Finset.Ico_self, Finset.filter_empty, Finset.card_empty, Nat.add_zero]
  · rw [hfree] at hused
    cases hused

/-- Which tables there are above the level has not changed for the page below it. -/
theorem meets_page (h : Reaches root page (m + 1) pm pm₁) (hm : m < 3) (hpage : page < 2 ^ 36) :
    pageFormat.meets pm₁.memory m 3 root page = none ↔
      pageFormat.meets pm.memory m 3 root page = none := by
  have hsame := h.meets m (by omega) page hpage
  rw [decide_eq_false (by omega), Bool.or_false] at hsame
  rw [← Option.not_isSome_iff_eq_none, ← Option.not_isSome_iff_eq_none, hsame]

/-- Neither the walks nor the frames change. -/
theorem same (h : Reaches root page m pm pm₁)
    (hmeets : ∀ k ≤ 3, ∀ q < 2 ^ 36, pageFormat.meets pm'.memory k 3 root q =
      pageFormat.meets pm₁.memory k 3 root q) (hpage : page < 2 ^ 36)
    (hframes : pm'.frames = pm₁.frames) : Reaches root page m pm pm' := by
  refine ⟨fun k hk q hq => by rw [hmeets k hk q hq, h.meets k hk q hq],
    by rw [hframes, h.frames], fun f hfree hused => ?_⟩
  rw [hframes] at hused
  obtain ⟨k, hk⟩ := h.taken f hfree hused
  have hk3 : k ≤ 3 := Format.le_of_meets hk
  exact ⟨k, (hmeets k hk3 page hpage).trans hk⟩

/-- There is a table at the next level. -/
theorem present (h : Reaches root page (m + 1) pm pm₁) (hm : m < 3) (hpage : page < 2 ^ 36)
    (hmet : pageFormat.meets pm₁.memory m 3 root page ≠ none) : Reaches root page m pm pm₁ := by
  have hold : pageFormat.meets pm.memory m 3 root page ≠ none := fun hc =>
    hmet ((h.meets_page hm hpage).mpr hc)
  refine ⟨fun k hk q hq => ?_, ?_, h.taken⟩
  · rw [h.meets k hk q hq]
    by_cases hkm : k = m
    · subst hkm
      by_cases hp : pageFormat.place k q = pageFormat.place k page
      · have hsame : pageFormat.meets pm.memory k 3 root q =
            pageFormat.meets pm.memory k 3 root page :=
          Format.meets_of_lead hk (congrArg Prod.snd hp)
        rw [hsame, Option.isSome_iff_ne_none.mpr hold, Bool.true_or, Bool.true_or]
      · rw [decide_eq_false (by omega), decide_eq_false fun hc => hp hc.2]
    · have hle : m + 1 ≤ k ↔ m ≤ k := by omega
      simp only [hle]
  · rw [card_lacking_succ hm, if_neg hold, Nat.add_zero]
    exact h.frames

/-- A table is made at the next level. -/
theorem link (h : Reaches root page (m + 1) pm pm₁) (hm : m < 3) (hpage : page < 2 ^ 36)
    (hnone : pageFormat.meets pm₁.memory m 3 root page = none)
    (htake : PageManager.TakesFrame pm₁.frames c pm'.frames)
    (hmeets : ∀ k ≤ 3, ∀ q < 2 ^ 36, pageFormat.meets pm'.memory k 3 root q =
      if k = m ∧ pageFormat.place m q = pageFormat.place m page then some c
      else pageFormat.meets pm₁.memory k 3 root q) : Reaches root page m pm pm' := by
  refine ⟨fun k hk q hq => ?_, ?_, fun f hfree hused => ?_⟩
  · rw [hmeets k hk q hq]
    by_cases hkm : k = m ∧ pageFormat.place m q = pageFormat.place m page
    · obtain ⟨rfl, hp⟩ := hkm
      rw [if_pos ⟨rfl, hp⟩, decide_eq_true ⟨le_rfl, hp⟩, Bool.or_true]
      rfl
    · rw [if_neg hkm, h.meets k hk q hq]
      have hle : (m + 1 ≤ k ∧ pageFormat.place k q = pageFormat.place k page) ↔
          m ≤ k ∧ pageFormat.place k q = pageFormat.place k page := by
        constructor
        · exact fun hc => ⟨by omega, hc.2⟩
        · rintro ⟨hle, hp⟩
          refine ⟨lt_of_le_of_ne hle ?_, hp⟩
          rintro rfl
          exact hkm ⟨rfl, hp⟩
      simp only [hle]
  · rw [card_lacking_succ hm, if_pos ((h.meets_page hm hpage).mp hnone), ← h.frames,
      ← htake.freeFrames]
    omega
  · rw [htake.taken, Bool.or_eq_true, decide_eq_true_eq] at hused
    rcases hused with rfl | hused
    · exact ⟨m, by rw [hmeets m (by omega) page hpage, if_pos ⟨rfl, rfl⟩]⟩
    · -- A table made before is of a level above.
      obtain ⟨k, hk⟩ := h.taken f hfree hused
      have hk3 : k ≤ 3 := Format.le_of_meets hk
      have hkm : k ≠ m := by
        rintro rfl
        rw [hnone] at hk
        cases hk
      exact ⟨k, by rw [hmeets k hk3 page hpage, if_neg fun hc => hkm hc.1, hk]⟩

/-- No frame is left for the table of the next level. -/
theorem few (h : Reaches root page (m + 1) pm pm₁) (hm : m < 3) (hpage : page < 2 ^ 36)
    (hnone : pageFormat.meets pm₁.memory m 3 root page = none)
    (hempty : pm₁.frames.bitmap.freeSet = ∅) :
    pm.frames.bitmap.freeFrames < (lacking pm.memory root page 0).card := by
  have hsub : lacking pm.memory root page m ⊆ lacking pm.memory root page 0 :=
    Finset.filter_subset_filter _ (Finset.Ico_subset_Ico_left (Nat.zero_le m))
  have hcard := Finset.card_le_card hsub
  rw [card_lacking_succ hm, if_pos ((h.meets_page hm hpage).mp hnone)] at hcard
  have hframes := h.frames
  rw [Bitmap.freeFrames, hempty, Finset.card_empty] at hframes
  omega

end Reaches

/-! ## The way down for one page -/

/-- The walk of the page gets down to a table of level `m`. -/
structure Descends (root page : Nat) (user : Bool) (m : Nat) (label : Labelling)
    (pm : PageManager) (label' : Labelling) (pm' : PageManager) (t : Nat) : Prop where
  proceeds : Proceeds (· = page) label pm label' pm'
  reaches : Reaches root page m pm pm'
  opens : Opens pm'.memory user page root m t

/-- No frame is left for a table that the page lacks. -/
structure Stalls (root page : Nat) (label : Labelling) (pm : PageManager) (label' : Labelling)
    (pm' : PageManager) : Prop where
  proceeds : Proceeds (· = page) label pm label' pm'
  empty : pm'.frames.bitmap.freeSet = ∅
  few : pm.frames.bitmap.freeFrames < (lacking pm.memory root page 0).card
  unmapped : pageFormat.meets pm'.memory 0 3 root page = none

namespace Descends

variable {root page m t : Nat} {user : Bool} {label label₁ : Labelling} {pm pm₁ : PageManager}

theorem start (h : Shaped label pm) (root page : Nat) (user : Bool) :
    Descends root page user 3 label pm label pm root :=
  ⟨Proceeds.refl _ h, Reaches.refl root page pm, .root⟩

theorem root_place (h : Descends root page user m label pm label₁ pm₁ t)
    (hroot : label root = some (3, 0)) {q : Nat} (hq : q < 2 ^ 36) :
    label₁ root = some (pageFormat.place 3 q) := by
  rw [place_three hq]
  exact h.proceeds.labels root _ hroot

theorem label_eq (h : Descends root page user m label pm label₁ pm₁ t)
    (hroot : label root = some (3, 0)) (hpage : page < 2 ^ 36) :
    label₁ t = some (pageFormat.place m page) :=
  h.opens.label_eq h.proceeds.shaped.labelled (h.root_place hroot hpage)

/-- Where the walk ends there is no table below. -/
theorem meets_none (h : Descends root page user (m + 1) label pm label₁ pm₁ t)
    (hend : pageFormat.stops (m + 1) (pm₁.memory t (pageFormat.index (m + 1) page)) = true)
    {k : Nat} (hk : k ≤ m) : pageFormat.meets pm₁.memory k 3 root page = none :=
  Format.meets_eq_none_of_stops h.opens.meets_self h.opens.meets_eq.1 hend hk

theorem stalls (h : Descends root page user (m + 1) label pm label₁ pm₁ t) (hpage : page < 2 ^ 36)
    (hend : pageFormat.stops (m + 1) (pm₁.memory t (pageFormat.index (m + 1) page)) = true)
    (hempty : pm₁.frames.bitmap.freeSet = ∅) :
    Stalls root page label pm label₁ { pm₁ with outOfFrames := true } :=
  ⟨h.proceeds.record true, hempty,
    h.reaches.few (Nat.lt_of_succ_le h.opens.meets_eq.1) hpage (h.meets_none hend le_rfl) hempty,
    h.meets_none hend (Nat.zero_le m)⟩

/-- A link on the way that leads on may be widened. -/
theorem widen (h : Descends root page user (m + 1) label pm label₁ pm₁ t)
    (hroot : label root = some (3, 0)) (hpage : page < 2 ^ 36)
    (hs : pageFormat.stops (m + 1) (pm₁.memory t (pageFormat.index (m + 1) page)) = false) :
    Descends root page user m label pm label₁
      { pm₁ with
        memory := storeWord pm₁.memory t (pageFormat.index (m + 1) page)
          (raise (pm₁.memory t (pageFormat.index (m + 1) page)) user) }
      (pm₁.memory t (pageFormat.index (m + 1) page)).address := by
  have hshaped := h.proceeds.shaped
  have hlab := h.label_eq hroot hpage
  have hi := index_lt_base (m + 1) page
  have hm : m < 3 := Nat.lt_of_succ_le h.opens.meets_eq.1
  have hp := (stops_eq_false.mp hs).1
  obtain ⟨hfp, hfw, hfu, hfh, hfa⟩ := Fields.mk.inj
    (fields_raise (pm₁.memory t (pageFormat.index (m + 1) page)) user)
  have hstop := (stops_congr (n := m + 1) hfp hfh).trans hs
  have hw := hshaped.writable t m _ _ hlab hi hp
  have hstore := Proceeds.store (· = page) hshaped hlab (hfp.trans hp) (hfw.trans hw)
    (fun _ => by rw [hfa]; exact hshaped.labelled t m _ _ hlab hi hs)
    fun _ => ⟨hstop, hfa, fun hu => by rw [hfu, hu, Bool.or_true]⟩
  have hnext : pageFormat.meets pm₁.memory m 3 root page ≠ none := by
    rw [Format.meets_below h.opens.meets_self, hs]
    exact Option.some_ne_none _
  refine ⟨h.proceeds.trans hstore, (h.reaches.present hm hpage hnext).same (fun k _ q hq => ?_)
    hpage rfl, ?_⟩
  · refine Format.meets_of_same_links hshaped.labelled base_pos (fun s n lead j hx _ => ?_)
      (h.root_place hroot hq)
    dsimp only
    by_cases hsj : s = t ∧ j = pageFormat.index (m + 1) page
    · obtain ⟨rfl, rfl⟩ := hsj
      rw [storeWord_self]
      exact ⟨stops_congr hfp hfh, hfa⟩
    · rw [storeWord_of_ne hsj]
      exact ⟨rfl, rfl⟩
  · have hup := h.opens.widens hstore.widens hshaped.labelled (h.root_place hroot hpage)
    have hdown := hup.child (by dsimp only; rw [storeWord_self]; exact hstop)
      (by dsimp only; rw [storeWord_self]; exact hfw.trans hw)
      (fun hu => by dsimp only; rw [storeWord_self, hfu, hu, Bool.true_or])
    dsimp only at hdown
    rwa [storeWord_self, hfa] at hdown

/-- A new table is linked where the walk ended. -/
theorem link (h : Descends root page user (m + 1) label pm label₁ pm₁ t)
    (hroot : label root = some (3, 0)) (hpage : page < 2 ^ 36)
    (hend : pageFormat.stops (m + 1) (pm₁.memory t (pageFormat.index (m + 1) page)) = true)
    {c : Nat} {frames' : MemoryManager} (htake : PageManager.TakesFrame pm₁.frames c frames')
    (words : Nat → PageTableEntry) (hwords : m = 0 ∨ ∀ j, words j = 0) {e : PageTableEntry}
    (hf : fields e = ⟨true, true, e.userSupervisor, false, c⟩)
    (hu : user = true → e.userSupervisor = true) :
    ∃ label', Descends root page user m label pm label'
      { pm₁ with
        frames := frames'
        memory := storeWord (Function.update pm₁.memory c words) t
          (pageFormat.index (m + 1) page) e } c := by
  have hshaped := h.proceeds.shaped
  have hlab := h.label_eq hroot hpage
  have hm : m < 3 := Nat.lt_of_succ_le h.opens.meets_eq.1
  have hc := hshaped.allocated.label_eq_none htake
  have htc := Shaped.ne_of_label hc hlab
  obtain ⟨hfp, hfw, -, hfh, hfa⟩ := Fields.mk.inj hf
  have hstop : pageFormat.stops (m + 1) e = false := stops_eq_false.mpr ⟨hfp, fun _ => hfh⟩
  have hsuits : Suits label₁ m (page / 512 ^ (m + 1)) words := by
    rcases hwords with rfl | hz
    · exact Suits.last _ _ _
    · rw [show words = fun _ => 0 from funext hz]
      exact Suits.zero _ _ _
  have hfill := Proceeds.fill (· = page) hshaped htake hsuits
  have hlab' := hfill.labels t _ hlab
  have hlead : page / 512 ^ (m + 1 + 1) * 512 + pageFormat.index (m + 1) page =
      page / 512 ^ (m + 1) := @Format.lead_mul_add_index _ _ pageFormat page (m + 1)
  have hstore := Proceeds.store (· = page) hfill.shaped hlab' (e := e)
    (i := pageFormat.index (m + 1) page) hfp hfw
    (fun _ => by
      rw [hfa, Function.update_self]
      exact congrArg (fun l => some (m, l)) hlead.symm)
    fun hs => by
      dsimp only at hs
      rw [Function.update_of_ne htc, hend] at hs
      cases hs
  refine ⟨_, h.proceeds.trans (hfill.trans hstore), h.reaches.link hm hpage
    (h.meets_none hend le_rfl) htake fun k hk q hq => ?_, ?_⟩
  · refine Format.meets_link hshaped.labelled base_pos (h.root_place hroot hpage)
      h.opens.meets_eq.1 h.opens.meets_self hend (fun s j hs hsj => ?_) ?_ ?_ ?_
      (h.root_place hroot hq) hk
    · have hsc : s ≠ c := by
        rintro rfl
        exact hs hc
      dsimp only
      rw [storeWord_of_ne hsj, Function.update_of_ne hsc]
    · dsimp only
      rw [storeWord_self]
      exact hstop
    · dsimp only
      rw [storeWord_self]
      exact hfa
    · refine hwords.imp_right fun hz j => ?_
      dsimp only
      rw [storeWord_of_ne fun hx => htc hx.1.symm, Function.update_self, hz]
      exact stops_of_absent (by decide)
  · have hup := (h.opens.widens hfill.widens hshaped.labelled (h.root_place hroot hpage)).widens
      hstore.widens hfill.shaped.labelled (hfill.labels root _ (h.root_place hroot hpage))
    have hdown := hup.child (by dsimp only; rw [storeWord_self]; exact hstop)
      (by dsimp only; rw [storeWord_self]; exact hfw)
      (fun huser => by dsimp only; rw [storeWord_self]; exact hu huser)
    dsimp only at hdown
    rwa [storeWord_self, hfa] at hdown

/-- `EnsureEntry` gives the next table on the way of the page, or no frame is left for it. -/
theorem ensureEntry (h : Descends root page user (m + 1) label pm label₁ pm₁ t)
    (hroot : label root = some (3, 0)) (hpage : page < 2 ^ 36)
    (hh : m = 0 → (pm₁.memory t (pageFormat.index (m + 1) page)).present = true →
      (pm₁.memory t (pageFormat.index (m + 1) page)).hugePage = false) :
    (∃ label' c pm', pm₁.ensureEntry (t * 4096) (pageFormat.index (m + 1) page) user =
        (c * 4096, pm') ∧ c ≠ 0 ∧ Descends root page user m label pm label' pm' c) ∨
      ∃ pm', pm₁.ensureEntry (t * 4096) (pageFormat.index (m + 1) page) user = (0, pm') ∧
        Stalls root page label pm label₁ pm' := by
  have hshaped := h.proceeds.shaped
  have hlab := h.label_eq hroot hpage
  have hi := index_lt_base (m + 1) page
  rcases PageManager.ensureEntry_cases hshaped.allocated hlab
      (hshaped.clear t m _ _ hlab hi) with
    ⟨hp, he⟩ | ⟨hp, c, frames', htake, he⟩ | ⟨hp, hempty, he⟩
  · have hs : pageFormat.stops (m + 1) (pm₁.memory t (pageFormat.index (m + 1) page)) = false :=
      stops_eq_false.mpr ⟨hp, fun hm => hh (by omega) hp⟩
    have hchild := label_address hshaped.labelled hlab hs
    refine Or.inl ⟨label₁, _, _, he, ?_, h.widen hroot hpage hs⟩
    intro hz
    rw [hz, hshaped.allocated.null] at hchild
    cases hchild
  · obtain ⟨hpos, hc40⟩ := hshaped.allocated.free c htake.free
    have hf := fields_newLink hc40 user
    have hu : (newLink c user).userSupervisor = user := congrArg Fields.userSupervisor hf
    obtain ⟨label', hlink⟩ := h.link hroot hpage (stops_of_absent hp) htake
      (fun _ => 0) (Or.inr fun _ => rfl) (by rw [hu]; exact hf) (by rw [hu]; exact id)
    exact Or.inl ⟨label', c, _, he, by omega, hlink⟩
  · exact Or.inr ⟨_, he, h.stalls hpage (stops_of_absent hp) hempty⟩

/-- The splitting of a 2 MB page on the way of the page, after which `EnsureEntry` gives the page
table that was made; or no frame is left for it. -/
theorem splitHugePage (h : Descends root page user 1 label pm label₁ pm₁ t)
    (hroot : label root = some (3, 0)) (hpage : page < 2 ^ 36)
    (hp : (pm₁.memory t (pageFormat.index 1 page)).present = true)
    (hh : (pm₁.memory t (pageFormat.index 1 page)).hugePage = true) :
    (∃ label' c pm₂ pm',
        pm₁.splitHugePage (t * 4096) (pageFormat.index 1 page) user = (true, pm₂) ∧
        pm₂.ensureEntry (t * 4096) (pageFormat.index 1 page) user = (c * 4096, pm') ∧ c ≠ 0 ∧
        Descends root page user 0 label pm label' pm' c) ∨
      ∃ pm', pm₁.splitHugePage (t * 4096) (pageFormat.index 1 page) user = (false, pm') ∧
        Stalls root page label pm label₁ pm' := by
  have hshaped := h.proceeds.shaped
  have hlab := h.label_eq hroot hpage
  have hi := index_lt_base 1 page
  rcases PageManager.splitHugePage_cases hshaped.allocated hlab with
    ⟨c, frames', htake, he⟩ | ⟨hempty, he⟩
  · obtain ⟨hpos, hc40⟩ := hshaped.allocated.free c htake.free
    have hf := fields_splitLink (pm₁.memory t (pageFormat.index 1 page)) hc40 user
    rw [hshaped.writable t 0 _ _ hlab hi hp] at hf
    obtain ⟨hfp, hfw, hfu, hfh, hfa⟩ := Fields.mk.inj hf
    obtain ⟨hgp, hgw, hgu, hgh, hga⟩ := Fields.mk.inj
      (fields_raise (splitLink (pm₁.memory t (pageFormat.index 1 page)) c user) user)
    have hg : fields (raise (splitLink (pm₁.memory t (pageFormat.index 1 page)) c user) user) =
        ⟨true, true, (raise (splitLink (pm₁.memory t (pageFormat.index 1 page)) c user)
          user).userSupervisor, false, c⟩ :=
      Fields.ext (hgp.trans hfp) (hgw.trans hfw) rfl (hgh.trans hfh) (hga.trans hfa)
    obtain ⟨label', hdown⟩ := h.link hroot hpage (stops_of_huge hh) htake
      (splitTable (pm₁.memory t (pageFormat.index 1 page))) (Or.inl rfl) hg
      fun hu => by rw [hgu, hu, Bool.true_or]
    -- `EnsureEntry` finds the page table that has been made.
    have hensure := @PageManager.ensureEntry_of_present { pm₁ with
      frames := frames'
      memory := storeWord (Function.update pm₁.memory c
        (splitTable (pm₁.memory t (pageFormat.index 1 page)))) t (pageFormat.index 1 page)
        (splitLink (pm₁.memory t (pageFormat.index 1 page)) c user) } t
      (pageFormat.index 1 page) user (by simp only [storeWord_self]; exact hfp)
    simp only [storeWord_self, storeWord_storeWord, hfa] at hensure
    exact Or.inl ⟨label', c, _, _, he, hensure, by omega, hdown⟩
  · exact Or.inr ⟨_, he, h.stalls hpage (stops_of_huge hh) hempty⟩

end Descends

/-- An entry of a page table on an open way gives the page its frame and flags. -/
def Backs (memory : Nat → Nat → PageTableEntry) (root page paddr flags : Nat) : Prop :=
  ∃ t, Opens memory (hasFlag flags kUser) page root 0 t ∧
    Translation.ofLeaf (memory t (pageFormat.index 0 page)) = PageManager.granted paddr flags

/-- The page is mapped, with a frame taken for each table that it lacks. -/
structure Maps (root page paddr flags : Nat) (label : Labelling) (pm : PageManager)
    (label' : Labelling) (pm' : PageManager) : Prop where
  proceeds : Proceeds (· = page) label pm label' pm'
  reaches : Reaches root page 0 pm pm'
  backs : Backs pm'.memory root page paddr flags

/-- One iteration of `MapPage` maps the page, or no frame is left for a table. -/
def MapsOrStalls (root page paddr flags : Nat) (label : Labelling) (pm : PageManager)
    (result : Bool × PageManager) : Prop :=
  (∃ label' pm', result = (true, pm') ∧ Maps root page paddr flags label pm label' pm') ∨
  ∃ label' pm', result = (false, pm') ∧ Stalls root page label pm label' pm'

namespace Descends

variable {root t vaddr paddr flags : Nat} {label label₁ : Labelling} {pm pm₁ : PageManager}

/-- The write to the last level. -/
theorem setLeaf {page : Nat} (h : Descends root page (hasFlag flags kUser) 0 label pm label₁ pm₁ t)
    (hroot : label root = some (3, 0)) (hpage : page < 2 ^ 36) :
    Maps root page paddr flags label pm label₁
      (pm₁.setLeaf (t * 4096) (pageFormat.index 0 page) paddr flags) := by
  have hshaped := h.proceeds.shaped
  have hlab := h.label_eq hroot hpage
  have hleaf : Proceeds (· = page) label₁ pm₁ label₁
      (pm₁.setLeaf (t * 4096) (pageFormat.index 0 page) paddr flags) := by
    rw [PageManager.setLeaf_mul]
    exact Proceeds.store_leaf hshaped hlab
  have hsame : Format.SameBut label₁ pm₁.memory (pm₁.setLeaf (t * 4096) (pageFormat.index 0 page)
      paddr flags).memory t (pageFormat.index 0 page) := by
    intro s j _ hsj
    rw [PageManager.setLeaf_mul]
    exact storeWord_of_ne hsj
  refine ⟨h.proceeds.trans hleaf, h.reaches.same (fun k hk q hq => ?_) hpage rfl, t, ?_, ?_⟩
  · exact Format.meets_of_level_le hshaped.labelled base_pos hsame hlab (h.root_place hroot hq)
      (Nat.zero_le k) hk
  · exact h.opens.widens hleaf.widens hshaped.labelled (h.root_place hroot hpage)
  · rw [PageManager.setLeaf_mul]
    dsimp only
    rw [storeWord_self, PageManager.ofLeaf_leafEntry]

private theorem mapInTable
    (h : Descends root (pageOf vaddr) (hasFlag flags kUser) 1 label pm label₁ pm₁ t)
    (hroot : label root = some (3, 0))
    (hh : (pm₁.memory t (pageFormat.index 1 (pageOf vaddr))).present = true →
      (pm₁.memory t (pageFormat.index 1 (pageOf vaddr))).hugePage = false) :
    MapsOrStalls root (pageOf vaddr) paddr flags label pm
      (pm₁.mapInTable (t * 4096) vaddr paddr flags) := by
  have hpage : pageOf vaddr < 2 ^ 36 := Nat.mod_lt _ (by decide)
  obtain ⟨-, -, hi1, hi0⟩ := Sound.index_pageOf vaddr
  rw [PageManager.mapInTable, hi1, hi0]
  rcases h.ensureEntry hroot hpage fun _ => hh with
    ⟨label', c, pm', he, hc, hdown⟩ | ⟨pm', he, hstall⟩
  · rw [he]
    dsimp only
    rw [if_neg (by omega)]
    exact Or.inl ⟨label', _, rfl, hdown.setLeaf hroot hpage⟩
  · rw [he]
    exact Or.inr ⟨label₁, pm', rfl, hstall⟩

private theorem mapInDirectory
    (h : Descends root (pageOf vaddr) (hasFlag flags kUser) 1 label pm label₁ pm₁ t)
    (hroot : label root = some (3, 0)) :
    MapsOrStalls root (pageOf vaddr) paddr flags label pm
      (pm₁.mapInDirectory (t * 4096) vaddr paddr flags) := by
  have hpage : pageOf vaddr < 2 ^ 36 := Nat.mod_lt _ (by decide)
  obtain ⟨-, -, hi1, hi0⟩ := Sound.index_pageOf vaddr
  rw [PageManager.mapInDirectory, hi1, PageManager.entry_mul]
  dsimp only
  by_cases hhuge : ((pm₁.memory t (pageFormat.index 1 (pageOf vaddr))).present &&
      (pm₁.memory t (pageFormat.index 1 (pageOf vaddr))).hugePage) = true
  · obtain ⟨hp, hh⟩ := Bool.and_eq_true _ _ ▸ hhuge
    rw [if_pos hhuge]
    rcases h.splitHugePage hroot hpage hp hh with
      ⟨label', c, pm₂, pm', he, hensure, hc, hdown⟩ | ⟨pm', he, hstall⟩
    · rw [he]
      dsimp only
      rw [Bool.not_true, if_neg Bool.false_ne_true, PageManager.mapInTable, hi1, hi0, hensure]
      dsimp only
      rw [if_neg (by omega)]
      exact Or.inl ⟨label', _, rfl, hdown.setLeaf hroot hpage⟩
    · rw [he]
      exact Or.inr ⟨label₁, pm', rfl, hstall⟩
  · rw [if_neg hhuge]
    refine h.mapInTable hroot fun hp => ?_
    simpa [hp] using hhuge

end Descends

/-- One iteration of `MapPage`. -/
theorem Shaped.mapOne {label : Labelling} {pm : PageManager} {root vaddr paddr flags : Nat}
    (h : Shaped label pm) (hroot : label root = some (3, 0)) (hpml4 : pm.pml4Table = root * 4096) :
    MapsOrStalls root (pageOf vaddr) paddr flags label pm (pm.mapOne vaddr paddr flags) := by
  have hpage : pageOf vaddr < 2 ^ 36 := Nat.mod_lt _ (by decide)
  obtain ⟨hi3, hi2, -, -⟩ := Sound.index_pageOf vaddr
  rw [PageManager.mapOne, hi3, hi2, hpml4]
  dsimp only
  rcases (Descends.start h root (pageOf vaddr) (hasFlag flags kUser)).ensureEntry hroot hpage
      (by omega) with ⟨label₁, t₁, pm₁, he₁, ht₁, h₁⟩ | ⟨pm₁, he₁, hstall⟩
  · rw [he₁]
    dsimp only
    rw [if_neg (by omega)]
    rcases h₁.ensureEntry hroot hpage (by omega) with
      ⟨label₂, t₂, pm₂, he₂, ht₂, h₂⟩ | ⟨pm₂, he₂, hstall⟩
    · rw [he₂]
      dsimp only
      rw [if_neg (by omega)]
      exact h₂.mapInDirectory hroot
    · rw [he₂]
      exact Or.inr ⟨label₁, pm₂, rfl, hstall⟩
  · rw [he₁]
    exact Or.inr ⟨label, pm₁, rfl, hstall⟩

end Sylphia
