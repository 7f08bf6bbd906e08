import Mathlib.Algebra.Order.BigOperators.Group.Finset
import Mathlib.Data.Finset.Prod
import Mathlib.Data.Finset.Union
import Sylphia.Paging.Kernel
import Sylphia.Paging.Lacking

/-!
# The frames that a range of pages takes

`AllocateVirtual` takes one frame for each page and one for each table that the pages before it
and the page itself lack, where a table that several pages share counts once. With these numbers
it is decided before the call how far the frames reach.
-/

namespace Sylphia

open RadixTree PageTableEntry

/-- The places of the tables that a page lacks. -/
def lackingPlaces (memory : Nat → Nat → PageTableEntry) (root page : Nat) : Finset (Nat × Nat) :=
  (lacking memory root page 0).image fun k => pageFormat.place k page

/-- The places of the tables that the pages `i, .., n - 1` of a range lack. -/
def missingBetween (memory : Nat → Nat → PageTableEntry) (root virtualAddr i n : Nat) :
    Finset (Nat × Nat) :=
  (Finset.Ico i n).biUnion fun j => lackingPlaces memory root (rangePage virtualAddr j)

section Counting

variable {memory memory' : Nat → Nat → PageTableEntry} {root page v i n : Nat}

theorem rangePage_lt_top (v j : Nat) : rangePage v j < 2 ^ 36 := Nat.mod_lt _ (by decide)

theorem mem_lacking {k : Nat} : k ∈ lacking memory root page 0 ↔
    k < 3 ∧ pageFormat.meets memory k 3 root page = none := by
  rw [lacking, Finset.mem_filter, Finset.mem_Ico]
  exact and_congr_left fun _ => ⟨And.right, fun h => ⟨Nat.zero_le k, h⟩⟩

theorem mem_lackingPlaces {x : Nat × Nat} : x ∈ lackingPlaces memory root page ↔
    x.1 < 3 ∧ pageFormat.meets memory x.1 3 root page = none ∧
      x = pageFormat.place x.1 page := by
  rw [lackingPlaces, Finset.mem_image]
  constructor
  · rintro ⟨k, hk, rfl⟩
    obtain ⟨hlt, hnone⟩ := mem_lacking.mp hk
    exact ⟨hlt, hnone, rfl⟩
  · rintro ⟨hlt, hnone, hx⟩
    exact ⟨x.1, mem_lacking.mpr ⟨hlt, hnone⟩, hx.symm⟩

theorem card_lackingPlaces (memory : Nat → Nat → PageTableEntry) (root page : Nat) :
    (lackingPlaces memory root page).card = (lacking memory root page 0).card :=
  Finset.card_image_of_injective _ fun _ _ h => congrArg Prod.fst h

theorem lackingPlaces_congr {root' : Nat} (h : ∀ k < 3,
    (pageFormat.meets memory' k 3 root' page).isSome =
      (pageFormat.meets memory k 3 root page).isSome) :
    lackingPlaces memory' root' page = lackingPlaces memory root page := by
  ext x
  rw [mem_lackingPlaces, mem_lackingPlaces]
  refine and_congr_right fun hx => ?_
  rw [← Option.not_isSome_iff_eq_none, ← Option.not_isSome_iff_eq_none, h x.1 hx]

/-- The tables made for one page are no longer lacking to another. -/
theorem lackingPlaces_of_meets {q : Nat}
    (h : ∀ k ≤ 3, (pageFormat.meets memory' k 3 root q).isSome =
      ((pageFormat.meets memory k 3 root q).isSome ||
        decide (0 ≤ k ∧ pageFormat.place k q = pageFormat.place k page))) :
    lackingPlaces memory' root q =
      lackingPlaces memory root q \ lackingPlaces memory root page := by
  ext x
  rw [Finset.mem_sdiff, mem_lackingPlaces, mem_lackingPlaces, mem_lackingPlaces]
  by_cases hx : x.1 < 3
  · have hiff : pageFormat.meets memory' x.1 3 root q = none ↔
        pageFormat.meets memory x.1 3 root q = none ∧
          pageFormat.place x.1 q ≠ pageFormat.place x.1 page := by
      rw [← Option.not_isSome_iff_eq_none, ← Option.not_isSome_iff_eq_none, h x.1 (by omega),
        Bool.or_eq_true, decide_eq_true_eq, not_or]
      simp
    rw [hiff]
    constructor
    · rintro ⟨hlt, ⟨hnone, hne⟩, hplace⟩
      exact ⟨⟨hlt, hnone, hplace⟩, fun hc => hne (hplace.symm.trans hc.2.2)⟩
    · rintro ⟨⟨hlt, hnone, hplace⟩, hnot⟩
      refine ⟨hlt, ⟨hnone, fun hc => hnot ⟨hlt, ?_, hplace.trans hc⟩⟩, hplace⟩
      rw [← hnone]
      exact (Format.meets_of_lead (by omega) (congrArg Prod.snd hc)).symm
  · constructor
    · exact fun hc => absurd hc.1 hx
    · exact fun hc => absurd hc.1.1 hx

theorem missingBetween_self (memory : Nat → Nat → PageTableEntry) (root v i : Nat) :
    missingBetween memory root v i i = ∅ := by
  rw [missingBetween, Finset.Ico_self, Finset.biUnion_empty]

/-- Where the same tables are there, the same are missing. -/
theorem missingBetween_congr {root' : Nat} (h : ∀ q < 2 ^ 36, ∀ k < 3,
    (pageFormat.meets memory' k 3 root' q).isSome =
      (pageFormat.meets memory k 3 root q).isSome) :
    missingBetween memory' root' v i n = missingBetween memory root v i n :=
  Finset.biUnion_congr rfl fun j _ => lackingPlaces_congr (h _ (rangePage_lt_top v j))

/-- A page lacks a table at three levels at most. -/
theorem card_missingBetween_le (memory : Nat → Nat → PageTableEntry) (root v i n : Nat) :
    (missingBetween memory root v i n).card ≤ (n - i) * 3 := by
  rw [← Nat.card_Ico]
  refine Finset.card_biUnion_le_card_mul _ _ _ fun j _ => ?_
  rw [card_lackingPlaces]
  exact Finset.card_filter_le _ _

/-- What its first page lacks is missing to a range. -/
theorem card_lacking_le (hin : i < n) : (lacking memory root (rangePage v i) 0).card ≤
    (missingBetween memory root v i n).card := by
  rw [← card_lackingPlaces]
  exact Finset.card_le_card (Finset.subset_biUnion_of_mem
    (fun j => lackingPlaces memory root (rangePage v j)) (Finset.mem_Ico.mpr ⟨le_rfl, hin⟩))

/-- The first page of a range counts with all that it lacks, and the others with the rest. -/
theorem card_missingBetween (hin : i < n)
    (h : ∀ k ≤ 3, ∀ q < 2 ^ 36, (pageFormat.meets memory' k 3 root q).isSome =
      ((pageFormat.meets memory k 3 root q).isSome ||
        decide (0 ≤ k ∧ pageFormat.place k q = pageFormat.place k (rangePage v i)))) :
    (missingBetween memory root v i n).card =
      (lacking memory root (rangePage v i) 0).card +
        (missingBetween memory' root v (i + 1) n).card := by
  have hinsert : Finset.Ico i n = insert i (Finset.Ico (i + 1) n) := by
    ext k
    rw [Finset.mem_insert, Finset.mem_Ico, Finset.mem_Ico]
    omega
  have hrest : missingBetween memory' root v (i + 1) n =
      missingBetween memory root v (i + 1) n \ lackingPlaces memory root (rangePage v i) := by
    ext x
    simp only [missingBetween, Finset.mem_sdiff, Finset.mem_biUnion,
      lackingPlaces_of_meets fun k hk => h k hk _ (rangePage_lt_top v _)]
    constructor
    · rintro ⟨j, hj, hx, hnot⟩
      exact ⟨⟨j, hj, hx⟩, hnot⟩
    · rintro ⟨⟨j, hj, hx⟩, hnot⟩
      exact ⟨j, hj, hx, hnot⟩
  rw [hrest, missingBetween, hinsert, Finset.biUnion_insert, ← card_lackingPlaces,
    ← Finset.card_union_of_disjoint Finset.disjoint_sdiff, Finset.union_sdiff_self_eq_union]
  rfl

end Counting

/-- The page is mapped to a clear frame `f` of its own, and a frame was taken for each table that
it lacked. -/
structure Allocates (root page flags f : Nat) (label : Labelling) (pm : PageManager)
    (label' : Labelling) (pm' : PageManager) : Prop where
  proceeds : Proceeds (· = page) label pm label' pm'
  free : pm.frames.bitmap.get f = false
  used : pm'.frames.bitmap.get f = true
  plain : label' f = none
  clear : ∀ w, pm'.memory f w = 0
  backs : Backs pm'.memory root page (f * 4096) flags
  meets : ∀ k ≤ 3, ∀ q < 2 ^ 36, (pageFormat.meets pm'.memory k 3 root q).isSome =
    ((pageFormat.meets pm.memory k 3 root q).isSome ||
      decide (0 ≤ k ∧ pageFormat.place k q = pageFormat.place k page))
  frames : pm'.frames.bitmap.freeFrames + (lacking pm.memory root page 0).card + 1 =
    pm.frames.bitmap.freeFrames
  taken : ∀ g, pm.frames.bitmap.get g = false → pm'.frames.bitmap.get g = true →
    g = f ∨ ∃ k, pageFormat.meets pm'.memory k 3 root page = some g

/-- A frame was taken for the page, but there are too few for its tables: all are taken, and the
page has no page table. -/
structure FallsShort (root page : Nat) (label : Labelling) (pm : PageManager)
    (label' : Labelling) (pm' : PageManager) : Prop where
  proceeds : Proceeds (· = page) label pm label' pm'
  before : 0 < pm.frames.bitmap.freeFrames
  few : pm.frames.bitmap.freeFrames < (lacking pm.memory root page 0).card + 1
  after : pm'.frames.bitmap.freeFrames = 0
  unmapped : pageFormat.meets pm'.memory 0 3 root page = none

variable {label : Labelling} {pm : PageManager} {root v flags i n : Nat}

theorem Shaped.root_pos (h : Shaped label pm) (hroot : label root = some (3, 0)) : 0 < root := by
  rcases Nat.eq_zero_or_pos root with rfl | hpos
  · rw [h.allocated.null] at hroot
    cases hroot
  · exact hpos

/-- One iteration of `AllocateVirtual`. -/
theorem Shaped.allocateOne (h : Shaped label pm) (hroot : label root = some (3, 0))
    (hpml4 : pm.pml4Table = root * 4096) (v flags n i : Nat) :
    (pm.frames.bitmap.freeFrames = 0 ∧
      pm.allocateLoop v flags (n + 1) i = (false, { pm with outOfFrames := true })) ∨
    ∃ label' pm', pm.allocateLoop v flags (n + 1) i = pm'.allocateLoop v flags n (i + 1) ∧
      ((∃ f, Allocates root (rangePage v i) flags f label pm label' pm') ∨
        FallsShort root (rangePage v i) label pm label' pm') := by
  have hpos := h.root_pos hroot
  rcases PageManager.allocateLoop_cases h.allocated (by omega) v flags n i with
    ⟨hempty, he⟩ | ⟨f, frames', htake, he⟩
  · exact Or.inl ⟨by rw [Bitmap.freeFrames, hempty, Finset.card_empty], he⟩
  · refine Or.inr ?_
    have hnone := h.allocated.label_eq_none htake
    have hfill := @Proceeds.fill_frame label pm f frames' (fun _ => 0) (· = rangePage v i) h htake
    obtain ⟨pm₁, hpm₁⟩ : ∃ pm₁, pm₁ = { pm with
      frames := frames', memory := Function.update pm.memory f fun _ => 0 } := ⟨_, rfl⟩
    rw [← hpm₁] at he hfill
    have hmemory : pm₁.memory = Function.update pm.memory f fun _ => 0 := by rw [hpm₁]
    have hframes : pm₁.frames = frames' := by rw [hpm₁]
    have hmeets (k q : Nat) (hq : q < 2 ^ 36) :
        pageFormat.meets pm₁.memory k 3 root q = pageFormat.meets pm.memory k 3 root q := by
      refine Format.meets_of_same_links h.labelled base_pos (fun t m lead j ht _ => ?_)
        (by rw [place_three hq]; exact hroot)
      rw [hmemory, Function.update_of_ne (ne_of_label hnone ht)]
      exact ⟨rfl, rfl⟩
    have hlacking : lacking pm₁.memory root (rangePage v i) 0 =
        lacking pm.memory root (rangePage v i) 0 := by
      simp only [lacking, hmeets _ _ (rangePage_lt_top v i)]
    have hcount := htake.freeFrames
    have hused : pm₁.frames.bitmap.get f = true := by simp [hframes, htake.taken]
    have hone : MapsOrStalls root (rangePage v i) (f * 4096) flags label pm₁
        (pm₁.mapOne ((v + i * kPageSize4K) % 2 ^ 64) (f * 4096) flags) :=
      hfill.shaped.mapOne hroot (hfill.pml4.trans hpml4)
    rcases hone with ⟨label', pm', heq, hmaps⟩ | ⟨label', pm', heq, hstall⟩
    · rw [heq] at he
      refine ⟨label', pm', he, Or.inl ⟨f, hfill.trans hmaps.proceeds, htake.free,
        hmaps.proceeds.grows.used f hused, hmaps.proceeds.grows.label_eq_none hused hnone, ?_,
        hmaps.backs, ?_, ?_, ?_⟩⟩
      · intro w
        rw [hmaps.proceeds.data f hused hnone, hmemory, Function.update_self]
      · intro k hk q hq
        rw [hmaps.reaches.meets k hk q hq, hmeets k q hq]
      · have hall := hmaps.reaches.frames
        rw [hlacking, hframes] at hall
        omega
      · intro g hfree hg
        by_cases hgf : g = f
        · exact Or.inl hgf
        · refine Or.inr (hmaps.reaches.taken g ?_ hg)
          rw [hframes, htake.taken, hfree, decide_eq_false hgf]
          rfl
    · rw [heq] at he
      have hfew := hstall.few
      rw [hlacking, hframes] at hfew
      exact ⟨label', pm', he, Or.inr ⟨hfill.trans hstall.proceeds, by omega, by omega,
        by rw [Bitmap.freeFrames, hstall.empty, Finset.card_empty], hstall.unmapped⟩⟩

/-! ## The loop of `AllocateVirtual` -/

/-- The call returns true exactly when a frame is left for each page, after those for the pages
before it and for their tables. -/
theorem Shaped.allocateLoop_true_iff (h : Shaped label pm) (hroot : label root = some (3, 0))
    (hpml4 : pm.pml4Table = root * 4096) (v flags n i : Nat) :
    (pm.allocateLoop v flags n i).1 = true ↔
      n = 0 ∨ n + (missingBetween pm.memory root v i (i + n - 1)).card ≤
        pm.frames.bitmap.freeFrames := by
  induction n generalizing i pm label with
  | zero => exact ⟨fun _ => Or.inl rfl, fun _ => rfl⟩
  | succ n ih =>
    rcases h.allocateOne hroot hpml4 v flags n i with
      ⟨hzero, he⟩ | ⟨label', pm', he, ⟨f, hone⟩ | hone⟩
    · rw [he]
      refine ⟨fun hc => absurd hc Bool.false_ne_true, ?_⟩
      omega
    all_goals
      have hadv := hone.proceeds
      rw [he, ih hadv.shaped (hadv.labels root _ hroot) (hadv.pml4.trans hpml4)]
    · have hframes := hone.frames
      rcases Nat.eq_zero_or_pos n with rfl | hpos
      · rw [show i + (0 + 1) - 1 = i by omega, missingBetween_self, Finset.card_empty]
        omega
      · rw [card_missingBetween (by omega) hone.meets,
          show i + 1 + n - 1 = i + (n + 1) - 1 by omega]
        omega
    · have hbefore := hone.before
      have hfew := hone.few
      rw [hone.after]
      rcases Nat.eq_zero_or_pos n with rfl | hpos
      · rw [show i + (0 + 1) - 1 = i by omega, missingBetween_self, Finset.card_empty]
        omega
      · have hcard := @card_lacking_le pm.memory root v i (i + (n + 1) - 1) (by omega)
        omega

/-- When the call returns true although the frames do not suffice, it is the last page that has
been left without a page table. -/
theorem Shaped.allocateLoop_unmapped (h : Shaped label pm) (hroot : label root = some (3, 0))
    (hpml4 : pm.pml4Table = root * 4096) (htrue : (pm.allocateLoop v flags n i).1 = true)
    (hfew : pm.frames.bitmap.freeFrames <
      n + (missingBetween pm.memory root v i (i + n)).card) :
    pageFormat.meets (pm.allocateLoop v flags n i).2.memory 0 3 root (rangePage v (i + n - 1)) =
      none := by
  induction n generalizing i pm label with
  | zero =>
    rw [Nat.add_zero, missingBetween_self, Finset.card_empty] at hfew
    omega
  | succ n ih =>
    rcases h.allocateOne hroot hpml4 v flags n i with
      ⟨hzero, he⟩ | ⟨label', pm', he, ⟨f, hone⟩ | hone⟩
    · rw [he] at htrue
      cases htrue
    all_goals
      have hadv := hone.proceeds
      have hroot' := hadv.labels root _ hroot
      have hpml4' := hadv.pml4.trans hpml4
      rw [he] at htrue ⊢
    · have hframes := hone.frames
      rw [card_missingBetween (by omega) hone.meets] at hfew
      have hlast := ih hadv.shaped hroot' hpml4' htrue
        (by rw [show i + 1 + n = i + (n + 1) by omega]; omega)
      rwa [show i + 1 + n - 1 = i + (n + 1) - 1 by omega] at hlast
    · rw [hadv.shaped.allocateLoop_true_iff hroot' hpml4', hone.after] at htrue
      obtain rfl : n = 0 := by omega
      exact hone.unmapped

/-- An entry that gives a page its frame stays when other pages are mapped. -/
theorem Backs.proceeds {pages : Nat → Prop} {label' : Labelling} {pm' : PageManager}
    {page paddr : Nat} (hb : Backs pm.memory root page paddr flags)
    (h : Proceeds pages label pm label' pm') (hl : pageFormat.Labelled label pm.memory)
    (hroot : label root = some (pageFormat.place 3 page)) (hpage : ¬pages page) :
    Backs pm'.memory root page paddr flags := by
  obtain ⟨t, hopen, hleaf⟩ := hb
  refine ⟨t, hopen.widens h.widens hl hroot, ?_⟩
  have hdigits : page / 512 ^ (0 + 1) * 512 + pageFormat.index 0 page = page :=
    (@Format.lead_mul_add_index _ _ pageFormat page 0).trans (by rw [pow_zero, Nat.div_one])
  rw [h.leaves t _ _ (hopen.label_eq hl hroot) (index_lt_base 0 page)
    fun hp => hpage ((congrArg pages hdigits).mp hp), hleaf]

/-- Links that stay lead a walk to the tables that it met. -/
theorem Widens.extends {label : Labelling} {memory memory' : Nat → Nat → PageTableEntry}
    (h : Widens label memory memory') : pageFormat.Extends label memory memory' :=
  fun t n lead i ht hi hs => ⟨(h t n lead i ht hi hs).1, (h t n lead i ht hi hs).2.1⟩

/-- The pages `i, .., i + n - 1` of a range are mapped to clear frames of their own, and all other
frames that were taken are tables. -/
structure BacksRange (root v flags n i : Nat) (label : Labelling) (pm : PageManager)
    (label' : Labelling) (pm' : PageManager) (frame : Nat → Nat) : Prop where
  proceeds : Proceeds (fun q => ∃ j, i ≤ j ∧ j < i + n ∧ q = rangePage v j) label pm label' pm'
  free : ∀ j, i ≤ j → j < i + n → pm.frames.bitmap.get (frame j) = false
  used : ∀ j, i ≤ j → j < i + n → pm'.frames.bitmap.get (frame j) = true
  plain : ∀ j, i ≤ j → j < i + n → label' (frame j) = none
  clear : ∀ j, i ≤ j → j < i + n → ∀ w, pm'.memory (frame j) w = 0
  backs : ∀ j, i ≤ j → j < i + n →
    Backs pm'.memory root (rangePage v j) (frame j * 4096) flags
  own : ∀ j k, i ≤ j → j < i + n → i ≤ k → k < i + n → frame j = frame k → j = k
  taken : ∀ g, pm.frames.bitmap.get g = false → pm'.frames.bitmap.get g = true →
    (∃ j, i ≤ j ∧ j < i + n ∧ g = frame j) ∨
      ∃ q < 2 ^ 36, ∃ k, pageFormat.meets pm'.memory k 3 root q = some g

/-- The first page of a range, and the others after it. -/
theorem BacksRange.cons {label₁ label' : Labelling} {pm₁ pm' : PageManager} {f : Nat}
    {frame : Nat → Nat} (hroot : label root = some (3, 0))
    (hone : Allocates root (rangePage v i) flags f label pm label₁ pm₁)
    (hrest : BacksRange root v flags n (i + 1) label₁ pm₁ label' pm' frame)
    (hdistinct : ∀ j, i < j → j < i + (n + 1) → rangePage v j ≠ rangePage v i) :
    BacksRange root v flags (n + 1) i label pm label' pm' (Function.update frame i f) := by
  have hl₁ := hone.proceeds.shaped.labelled
  have hplace {q : Nat} (hq : q < 2 ^ 36) : label₁ root = some (pageFormat.place 3 q) := by
    rw [place_three hq]
    exact hone.proceeds.labels root _ hroot
  have hgrows := hrest.proceeds.grows
  have hfree {g : Nat} (hg : pm₁.frames.bitmap.get g = false) : pm.frames.bitmap.get g = false := by
    cases hb : pm.frames.bitmap.get g with
    | false => rfl
    | true => rw [← hg, hone.proceeds.grows.used g hb]
  have hcases (P : Nat → Nat → Prop) (hi : P i f)
      (hj : ∀ j, i + 1 ≤ j → j < i + 1 + n → P j (frame j)) (j : Nat) (hij : i ≤ j)
      (hjn : j < i + (n + 1)) : P j (Function.update frame i f j) := by
    by_cases hji : j = i
    · rw [hji, Function.update_self]
      exact hi
    · rw [Function.update_of_ne hji]
      exact hj j (by omega) (by omega)
  have hother (j : Nat) (hij : i + 1 ≤ j) (hjn : j < i + 1 + n) : frame j ≠ f := by
    intro hc
    have hused := hone.used
    rw [← hc, hrest.free j hij hjn] at hused
    cases hused
  refine ⟨(hone.proceeds.mono ?_).trans (hrest.proceeds.mono ?_), ?_, ?_, ?_, ?_, ?_, ?_, ?_⟩
  · rintro q rfl
    exact ⟨i, le_rfl, by omega, rfl⟩
  · rintro q ⟨j, hij, hjn, rfl⟩
    exact ⟨j, by omega, by omega, rfl⟩
  · exact hcases (fun _ g => pm.frames.bitmap.get g = false) hone.free
      fun j hij hjn => hfree (hrest.free j hij hjn)
  · exact hcases (fun _ g => pm'.frames.bitmap.get g = true) (hgrows.used f hone.used) hrest.used
  · exact hcases (fun _ g => label' g = none) (hgrows.label_eq_none hone.used hone.plain)
      hrest.plain
  · refine hcases (fun _ g => ∀ w, pm'.memory g w = 0) (fun w => ?_) hrest.clear
    rw [hrest.proceeds.data f hone.used hone.plain, hone.clear w]
  · refine hcases (fun j g => Backs pm'.memory root (rangePage v j) (g * 4096) flags) ?_ hrest.backs
    refine hone.backs.proceeds hrest.proceeds hl₁ (hplace (rangePage_lt_top v i)) ?_
    rintro ⟨j, hij, hjn, hc⟩
    exact hdistinct j (by omega) (by omega) hc.symm
  · intro j k hij hjn hik hkn
    by_cases hji : j = i <;> by_cases hki : k = i
    · exact fun _ => hji.trans hki.symm
    · rw [hji, Function.update_self, Function.update_of_ne hki]
      exact fun hc => absurd hc.symm (hother k (by omega) (by omega))
    · rw [hki, Function.update_self, Function.update_of_ne hji]
      exact fun hc => absurd hc (hother j (by omega) (by omega))
    · rw [Function.update_of_ne hji, Function.update_of_ne hki]
      exact hrest.own j k (by omega) (by omega) (by omega) (by omega)
  · intro g hg hused
    cases hmid : pm₁.frames.bitmap.get g with
    | true =>
      refine (hone.taken g hg hmid).imp ?_ ?_
      · rintro rfl
        exact ⟨i, le_rfl, by omega, by rw [Function.update_self]⟩
      · rintro ⟨k, hk⟩
        exact ⟨_, rangePage_lt_top v i, k, hrest.proceeds.widens.extends.meets hl₁ base_pos
          (hplace (rangePage_lt_top v i)) hk⟩
    | false =>
      refine (hrest.taken g hmid hused).imp_left ?_
      rintro ⟨j, hij, hjn, rfl⟩
      exact ⟨j, by omega, by omega, (Function.update_of_ne (by omega) _ _).symm⟩

/-- When the frames suffice for all pages and tables, all pages are mapped. -/
theorem Shaped.allocateLoop_backs (h : Shaped label pm) (hroot : label root = some (3, 0))
    (hpml4 : pm.pml4Table = root * 4096) (v flags n i : Nat)
    (henough : n + (missingBetween pm.memory root v i (i + n)).card ≤ pm.frames.bitmap.freeFrames)
    (hdistinct : ∀ j k, i ≤ j → j < k → k < i + n → rangePage v k ≠ rangePage v j) :
    ∃ label' frame, BacksRange root v flags n i label pm label'
      (pm.allocateLoop v flags n i).2 frame := by
  induction n generalizing i pm label with
  | zero =>
    refine ⟨label, fun _ => 0, Proceeds.refl _ h, ?_, ?_, ?_, ?_, ?_, ?_, ?_⟩
    rotate_right
    · intro g hfree hused
      rw [PageManager.allocateLoop, hfree] at hused
      cases hused
    all_goals
      intros
      omega
  | succ n ih =>
    rcases h.allocateOne hroot hpml4 v flags n i with
      ⟨hzero, he⟩ | ⟨label₁, pm₁, he, ⟨f, hone⟩ | hone⟩
    · omega
    · have hframes := hone.frames
      rw [card_missingBetween (by omega) hone.meets] at henough
      obtain ⟨label', frame, hrest⟩ := ih hone.proceeds.shaped (hone.proceeds.labels root _ hroot)
        (hone.proceeds.pml4.trans hpml4) (i + 1)
        (by rw [show i + 1 + n = i + (n + 1) by omega]; omega)
        fun j k hij hjk hkn => hdistinct j k (by omega) hjk (by omega)
      rw [he]
      exact ⟨label', _, BacksRange.cons hroot hone hrest fun j hij hjn =>
        hdistinct i j le_rfl hij hjn⟩
    · have hcard := @card_lacking_le pm.memory root v i (i + (n + 1)) (by omega)
      have hfew := hone.few
      omega

end Sylphia
