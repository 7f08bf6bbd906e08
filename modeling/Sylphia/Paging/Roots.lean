import Sylphia.Paging.Filling
import Sylphia.Paging.Process

/-!
# Roots that share tables

`CreateProcessPageTable` on tables of any shape, whether or not there are frames enough for all
its copies: the copies have the entries of the originals but for the links between them, and no
translation under any root changes.
-/

namespace Sylphia

open RadixTree PageTableEntry

/-- The entries differ at most in the table that they lead to. -/
structure Alike (level : Nat) (e e' : PageTableEntry) : Prop where
  fields : fields e' = ⟨e.present, e.readWrite, e.userSupervisor, e.hugePage, e'.address⟩
  ends : pageFormat.stops level e = true → e'.address = e.address

theorem Alike.refl (level : Nat) (e : PageTableEntry) : Alike level e e := ⟨rfl, fun _ => rfl⟩

theorem Alike.trans {level : Nat} {e e₁ e' : PageTableEntry} (h : Alike level e e₁)
    (h' : Alike level e₁ e') : Alike level e e' := by
  obtain ⟨hp, hw, hu, hh, -⟩ := Fields.mk.inj h.fields
  refine ⟨?_, fun hs => ?_⟩
  · rw [h'.fields, hp, hw, hu, hh]
  · rw [h'.ends ((stops_congr hp hh).trans hs), h.ends hs]

theorem Alike.stops_eq {level : Nat} {e e' : PageTableEntry} (h : Alike level e e') :
    pageFormat.stops level e' = pageFormat.stops level e := by
  obtain ⟨hp, -, -, hh, -⟩ := Fields.mk.inj h.fields
  exact stops_congr hp hh

/-- Tables are added that have the entries of old tables of their level, and no lookup changes. -/
structure Copies (label : Labelling) (pm : PageManager) (label' : Labelling) (pm' : PageManager) :
    Prop where
  shaped : Shaped label' pm'
  grows : Grows label pm.frames label' pm'.frames
  keeps : Keeps label pm.memory label' pm'.memory
  alike : ∀ t n lead i, label' t = some (n + 1, lead) → i < 512 →
    ∃ s, label s = some (n + 1, lead) ∧ Alike (n + 1) (pm.memory s i) (pm'.memory t i)
  pml4 : pm'.pml4Table = pm.pml4Table

namespace Copies

variable {label label₁ label' : Labelling} {pm pm₁ pm' : PageManager}

/-- Only the record of failures is touched. -/
theorem record (h : Shaped label pm) (flag : Bool) :
    Copies label pm label { pm with outOfFrames := flag } :=
  ⟨⟨h.allocated, h.labelled, h.clear, h.writable⟩, Grows.refl _ _, Keeps.refl _ _,
    fun t _ _ _ ht _ => ⟨t, ht, Alike.refl _ _⟩, rfl⟩

theorem trans (h : Copies label pm label₁ pm₁) (h' : Copies label₁ pm₁ label' pm') :
    Copies label pm label' pm' where
  shaped := h'.shaped
  grows := h.grows.trans h'.grows
  keeps := h.keeps.trans h'.keeps
  alike := fun t n lead i ht hi => by
    obtain ⟨s₁, hs₁, ha₁⟩ := h'.alike t n lead i ht hi
    obtain ⟨s, hs, ha⟩ := h.alike s₁ n lead i hs₁ hi
    exact ⟨s, hs, ha.trans ha₁⟩
  pml4 := h'.pml4.trans h.pml4

end Copies

namespace Shaped

variable {label : Labelling} {pm : PageManager} {root t s i m lead : Nat}

/-- `CopyPageTable` on a table of the tree. -/
theorem copyPageTable (h : Shaped label pm) (hs : label s = some (m, lead)) :
    pm.copyPageTable (s * 4096) = (0, { pm with outOfFrames := true }) ∨
    ∃ c pm', pm.copyPageTable (s * 4096) = (c * 4096, pm') ∧ c ≠ 0 ∧ c < 2 ^ 40 ∧
      label c = none ∧ pm'.memory = Function.update pm.memory c (copyTable (pm.memory s)) ∧
      Copies label pm (Function.update label c (some (m, lead))) pm' := by
  refine (PageManager.copyPageTable_cases h.allocated hs).imp And.right ?_
  rintro ⟨c, frames', htake, he⟩
  have hc := h.allocated.label_eq_none htake
  obtain ⟨hpos, hc40⟩ := h.allocated.free c htake.free
  have hsuits : Suits label m lead (copyTable (pm.memory s)) := by
    rintro n j rfl hj
    rw [copyTable_of_lt _ hj]
    exact ⟨h.clear s n lead j hs hj, h.writable s n lead j hs hj, h.labelled s n lead j hs hj⟩
  refine ⟨c, _, he, by omega, hc40, hc, rfl, h.fill htake hsuits, Grows.label_frame htake _,
    Keeps.fill h.labelled hc _ _, fun t n k j ht hj => ?_, rfl⟩
  rcases update_eq_some.mp ht with ⟨rfl, hx⟩ | ⟨htc, hold⟩
  · refine ⟨s, hs.trans (congrArg some hx.symm), ?_⟩
    dsimp only
    rw [Function.update_self, copyTable_of_lt _ hj]
    exact Alike.refl _ _
  · refine ⟨t, hold, ?_⟩
    dsimp only
    rw [Function.update_of_ne htc]
    exact Alike.refl _ _

/-- A link is set to a copy of the table that it led to. -/
theorem relink (h : Shaped label pm) (ht : label t = some (m + 1, lead))
    (hs : pageFormat.stops (m + 1) (pm.memory t i) = false) (hi : i < 512) {c : Nat}
    (hc : label c = some (m, lead * 512 + i)) (hc40 : c < 2 ^ 40)
    (hsame : ∀ page, label c = some (pageFormat.place m page) →
      pageFormat.lookup pm.memory m c page =
        pageFormat.lookup pm.memory m (pm.memory t i).address page) :
    Copies label pm label { pm with
      memory := storeWord pm.memory t i ((pm.memory t i).setAddress (c * 4096)) } := by
  have hf := @fields_relink c (pm.memory t i) hc40
  obtain ⟨hfp, hfw, -, -, hfa⟩ := Fields.mk.inj hf
  have hp := (stops_eq_false.mp hs).1
  refine ⟨h.store ht (hfp.trans hp) (hfw.trans (h.writable t m lead i ht hi hp))
    fun _ => by rw [hfa]; exact hc, Grows.refl _ _,
    relink_lookups h.labelled ht hs hc hc40 hsame, fun r n k j hr _ => ⟨r, hr, ?_⟩, rfl⟩
  dsimp only
  by_cases hrj : r = t ∧ j = i
  · obtain ⟨rfl, rfl⟩ := hrj
    rw [ht, Option.some.injEq, Prod.mk.injEq, Nat.add_right_cancel_iff] at hr
    obtain ⟨rfl, -⟩ := hr
    rw [storeWord_self]
    refine ⟨by rw [hfa]; exact hf, fun hend => ?_⟩
    rw [hs] at hend
    cases hend
  · rw [storeWord_of_ne hrj]
    exact Alike.refl _ _

/-- The table below an entry is copied and the copy is linked in its place, unless there is no
frame for it. -/
theorem copyBelow (h : Shaped label pm) (ht : label t = some (m + 1, lead)) (hi : i < 512)
    (hs : pageFormat.stops (m + 1) (pm.memory t i) = false) :
    pm.copyPageTable (pm.memory t i).getAddress = (0, { pm with outOfFrames := true }) ∨
    ∃ c pm', pm.copyPageTable (pm.memory t i).getAddress = (c * 4096, pm') ∧ c ≠ 0 ∧
      Copies label pm (Function.update label c (some (m, lead * 512 + i)))
        (pm'.setEntry (t * 4096) i ((pm'.entry (t * 4096) i).setAddress (c * 4096))) := by
  have hchild : label (pm.memory t i).address = some (m, lead * 512 + i) :=
    h.labelled t m lead i ht hi hs
  rw [PageManager.getAddress_eq]
  refine (h.copyPageTable hchild).imp_right ?_
  rintro ⟨c, pm', he, hpos, hc40, hc, hmem, hcopy⟩
  have htc := ne_of_label hc ht
  have hread : pm'.memory t i = pm.memory t i := by rw [hmem, Function.update_of_ne htc]
  have ht' : Function.update label c (some (m, lead * 512 + i)) t = some (m + 1, lead) := by
    rw [Function.update_of_ne htc, ht]
  refine ⟨c, pm', he, hpos, ?_⟩
  rw [PageManager.entry_mul, PageManager.setEntry_mul]
  refine hcopy.trans (hcopy.shaped.relink ht' (by rw [hread]; exact hs) hi
    (Function.update_self ..) hc40 fun page hplace => ?_)
  rw [Function.update_self, Option.some.injEq] at hplace
  have horig : label (pm.memory t i).address = some (pageFormat.place m page) :=
    hchild.trans (congrArg some hplace)
  have hcopied := lookup_copy h.labelled horig hc fun j hj =>
    copyTable_of_lt (pm.memory (pm.memory t i).address) hj
  have hkept := (Keeps.fill_frame h.labelled hc
    (copyTable (pm.memory (pm.memory t i).address))).lookups m _ page horig
  rw [hread, hmem, hcopied, hkept]

/-- The duplication of one page directory. -/
theorem copyDirectory (h : Shaped label pm) (ht : label t = some (2, lead)) (hi : i < 512) :
    ∃ label', Copies label pm label' (pm.copyDirectory (t * 4096) i) := by
  rw [PageManager.copyDirectory, PageManager.entry_mul]
  dsimp only
  split
  · next hp =>
    have hs : pageFormat.stops (1 + 1) (pm.memory t i) = false :=
      stops_eq_false.mpr ⟨hp, fun h1 => absurd h1 (by decide)⟩
    rcases h.copyBelow ht hi hs with he | ⟨c, pm', he, hc, hcopies⟩
    · rw [he]
      exact ⟨label, .record h true⟩
    · rw [he]
      dsimp only
      rw [if_neg (by omega)]
      exact ⟨_, hcopies⟩
  · exact ⟨label, .record h pm.outOfFrames⟩

end Shaped

/-- A new root with the translations of another. -/
structure CopiesRoot (label : Labelling) (pm : PageManager) (root a : Nat) (label' : Labelling)
    (pm' : PageManager) : Prop where
  copies : Copies label pm label' pm'
  rooted : label' a = some (3, 0)
  translates : ∀ page < 2 ^ 36,
    pageFormat.lookup pm'.memory 3 a page = pageFormat.lookup pm.memory 3 root page

theorem CopiesRoot.trans {root a : Nat} {label label₁ label' : Labelling}
    {pm pm₁ pm' : PageManager} (h : CopiesRoot label pm root a label₁ pm₁)
    (h' : Copies label₁ pm₁ label' pm') : CopiesRoot label pm root a label' pm' where
  copies := h.copies.trans h'
  rooted := h'.keeps.labels a _ h.rooted
  translates := fun page hpage => by
    rw [h'.keeps.lookups 3 a page (by rw [place_three hpage]; exact h.rooted),
      h.translates page hpage]

/-- `CreateProcessPageTable` returns null, or a root with the kernel's translations. -/
theorem Shaped.createProcessPageTable {label : Labelling} {pm : PageManager} {root : Nat}
    (h : Shaped label pm) (hroot : label root = some (3, 0)) (hpml4 : pm.pml4Table = root * 4096) :
    pm.createProcessPageTable = (0, { pm with outOfFrames := true }) ∨
    ∃ a label' pm', pm.createProcessPageTable = (a * 4096, pm') ∧ a ≠ 0 ∧
      CopiesRoot label pm root a label' pm' := by
  rw [PageManager.createProcessPageTable, hpml4]
  rcases h.copyPageTable hroot with he | ⟨a, pm₁, he, ha, -, hnone, hmem, h₁⟩
  · rw [he, ← hpml4]
    exact Or.inl rfl
  · rw [he]
    dsimp only
    rw [if_neg (by omega), PageManager.entry_mul]
    have hlab : Function.update label a (some (3, 0)) a = some (2 + 1, 0) := Function.update_self ..
    have hcopy : CopiesRoot label pm root a (Function.update label a (some (3, 0))) pm₁ := by
      refine ⟨h₁, hlab, fun page hpage => ?_⟩
      rw [hmem]
      exact lookup_copy h.labelled (by rw [place_three hpage]; exact hroot) hnone
        fun j hj => copyTable_of_lt _ hj
    refine Or.inr ?_
    split
    · next hp =>
      have hs : pageFormat.stops (2 + 1) (pm₁.memory a 0) = false :=
        stops_eq_false.mpr ⟨hp, fun h1 => absurd h1 (by decide)⟩
      rcases h₁.shaped.copyBelow hlab (by decide) hs with he₂ | ⟨b, pm₂, he₂, hb, h₂⟩
      · rw [he₂]
        exact ⟨a, _, _, rfl, ha, hcopy.trans (.record h₁.shaped true)⟩
      · rw [he₂]
        dsimp only
        rw [if_neg (by omega)]
        have hblab : Function.update (Function.update label a (some (3, 0))) b
            (some (2, 0 * 512 + 0)) b = some (2, 0) := Function.update_self ..
        obtain ⟨label₃, h₃⟩ := h₂.shaped.copyDirectory hblab (show 0 < 512 by decide)
        obtain ⟨label₄, h₄⟩ := h₃.shaped.copyDirectory (h₃.keeps.labels b _ hblab)
          (show 1 < 512 by decide)
        exact ⟨a, label₄, _, rfl, ha, ((hcopy.trans h₂).trans h₃).trans h₄⟩
    · exact ⟨a, _, pm₁, rfl, ha, hcopy⟩

end Sylphia
