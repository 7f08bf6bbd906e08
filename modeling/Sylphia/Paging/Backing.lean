import Sylphia.Paging.Reached

/-!
# What `AllocateVirtual` answers for

`MapPage` does not tell when it finds no frame for a table, and `AllocateVirtual` takes nothing
back when it fails. So its answer says only whether each page got a frame: true can stand for a
last page that is not mapped, and false for frames taken and pages mapped that nobody knows of.
-/

namespace Sylphia

open RadixTree PageTableEntry

/-- The states in which `AllocateVirtual` is called: under the kernel's root, or, by
`AllocateVirtualForProcess`, under the root of a process. -/
def CallReached (pm : PageManager) : Prop :=
  ∃ pm₀ roots, TablesReached pm₀ roots ∧ ∃ cr3 ∈ roots, ∃ loaded,
    pm = { pm₀ with pml4Table := cr3, cr3 := loaded }

theorem CallReached.shaped {pm : PageManager} (h : CallReached pm) : ∃ label, Shaped label pm ∧
    label (pm.pml4Table / 4096) = some (3, 0) ∧ pm.pml4Table = pm.pml4Table / 4096 * 4096 := by
  obtain ⟨pm₀, roots, hreached, cr3, hcr3, loaded, rfl⟩ := h
  obtain ⟨label, hr⟩ := hreached.rooted
  have hs := hr.shaped
  exact ⟨label, ⟨hs.allocated, hs.labelled, hs.clear, hs.writable⟩, (hr.roots cr3 hcr3).2,
    (hr.roots cr3 hcr3).1⟩

/-- A machine with one free frame more than `Initialize` takes, before `Initialize`. -/
def tightMachine : PageManager where
  frames := ⟨⟨0x01#8 :: List.replicate 7 0#8 ++ [0xF0#8]⟩, 72 * 4096⟩
  memory := fun _ _ => 0
  pml4Table := 0
  cr3 := 0
  outOfFrames := false

theorem tightMachine_bootable : Bootable tightMachine := by
  refine ⟨fun f hf => ?_, rfl⟩
  have hlt := Bitmap.lt_size_of_get hf
  rw [show tightMachine.frames.bitmap.bitmapSize = 9 by decide] at hlt
  refine ⟨?_, by omega⟩
  rcases Nat.eq_zero_or_pos f with rfl | hpos
  · revert hf
    decide
  · exact hpos

/-- What holds of the machine after `Initialize` holds in a state of a call. -/
theorem Bootable.callReached {pm : PageManager} (hb : Bootable pm) (P : PageManager → Bool)
    (h : (pm.initializePaging.any fun pm => !pm.outOfFrames && P pm) = true) :
    ∃ pm', CallReached pm' ∧ P pm' = true := by
  obtain ⟨pm', hpm', hboth⟩ := (Option.any_eq_true _ _).mp h
  obtain ⟨hout, hP⟩ := (Bool.and_eq_true _ _).mp hboth
  exact ⟨pm', ⟨pm', _, TablesReached.start hb hpm' ((Bool.not_eq_true' _).mp hout), _,
    List.mem_singleton_self _, pm'.cr3, rfl⟩, hP⟩

/-- The number of pages that hold `size` bytes. -/
def pagesOf (size : Nat) : Nat := (size + 4095) / 4096

/-- The page of an address has a page table under `pml4_table_`, and is mapped to this frame with
these flags. -/
structure MappedTo (pm : PageManager) (v flags f : Nat) : Prop where
  table : (pageFormat.meets pm.memory 0 3 (pm.pml4Table / 4096) (pageOf v)).isSome = true
  translates : translate pm.memory pm.pml4Table v =
    ⟨f, hasFlag flags kPresent, hasFlag flags kWritable, hasFlag flags kUser⟩

/-- Every page of the range is mapped to a frame of its own that the call has taken and cleared and
that is no table, and the other frames that it has taken are tables under `pml4_table_`. -/
def Backed (pm : PageManager) (v size flags : Nat) (pm' : PageManager) : Prop :=
  ∃ frame : Nat → Nat,
    (∀ j < pagesOf size, MappedTo pm' (v + j * 4096) flags (frame j) ∧
      pm.frames.bitmap.get (frame j) = false ∧ pm'.frames.bitmap.get (frame j) = true ∧
      (∀ n, ¬TableAt pm'.memory (pm'.pml4Table / 4096) n (frame j)) ∧
      ∀ w, pm'.memory (frame j) w = 0) ∧
    (∀ j < pagesOf size, ∀ k < pagesOf size, frame j = frame k → j = k) ∧
    ∀ f, pm.frames.bitmap.get f = false → pm'.frames.bitmap.get f = true →
      (∃ j < pagesOf size, f = frame j) ∨ ∃ n, TableAt pm'.memory (pm'.pml4Table / 4096) n f

/-- The places of the tables that the first `n` pages of a range need and that are not there. -/
def missingTables (pm : PageManager) (v n : Nat) : Finset (Nat × Nat) :=
  missingBetween pm.memory (pm.pml4Table / 4096) v 0 n

variable {pm : PageManager} {v size flags : Nat}

theorem allocateVirtual_aligned (hv : v % 4096 = 0) : pm.allocateVirtual v size flags =
    pm.allocateLoop v flags (PageManager.numPages size) 0 := by
  rw [PageManager.allocateVirtual, if_neg (by rw [kPageSize4K]; omega)]

/-- `AllocateVirtual` returns true exactly when each page gets a frame after those for the pages
before it and for their tables. -/
theorem allocateVirtual_true_iff (h : CallReached pm) (hv : v % 4096 = 0) :
    (pm.allocateVirtual v size flags).1 = true ↔ PageManager.numPages size = 0 ∨
      PageManager.numPages size + (missingTables pm v (PageManager.numPages size - 1)).card ≤
        pm.frames.bitmap.freeFrames := by
  obtain ⟨label, hs, hroot, hpml4⟩ := h.shaped
  rw [allocateVirtual_aligned hv, hs.allocateLoop_true_iff hroot hpml4, Nat.zero_add, missingTables]

/-- A range of that many pages is within 48 bits, and then no two of its pages are one. -/
theorem rangePage_ne {j k : Nat} (hjk : j < k) (hk : k < 2 ^ 36) :
    rangePage v k ≠ rangePage v j := by
  rw [rangePage_eq, rangePage_eq, pageOf, pageOf]
  omega

theorem Backs.mappedTo {root f : Nat} (hb : Backs pm.memory root (pageOf v) (f * 4096) flags)
    (hpml4 : pm.pml4Table = root * 4096) (hf : f < 2 ^ 40) : MappedTo pm v flags f := by
  obtain ⟨t, hopen, hleaf⟩ := hb
  have hdiv : root * 4096 / 4096 = root := Nat.mul_div_cancel root (by decide)
  refine ⟨?_, ?_⟩
  · rw [hpml4, hdiv, hopen.meets_self]
    rfl
  · have hlook : pageFormat.lookup pm.memory 0 t (pageOf v) =
        PageManager.granted (f * 4096) flags := hleaf
    have hgrant : PageManager.granted (f * 4096) flags =
        ⟨f, hasFlag flags kPresent, hasFlag flags kWritable, hasFlag flags kUser⟩ := by
      rw [PageManager.granted, Nat.mul_div_cancel f (by decide), Nat.mod_eq_of_lt hf]
    rw [translate, translatePage, hpml4, hdiv, hopen.lookup_eq, hlook, hgrant]
    rw [hlook, hgrant]
    exact id

/-- When the frames suffice for the pages and for the tables that are missing, the range is
backed. -/
theorem allocateVirtual_backed (h : CallReached pm) (hv : v % 4096 = 0) (hsize : size ≤ 2 ^ 48)
    (henough : PageManager.numPages size + (missingTables pm v (PageManager.numPages size)).card ≤
      pm.frames.bitmap.freeFrames) :
    Backed pm v size flags (pm.allocateVirtual v size flags).2 := by
  obtain ⟨label, hs, hroot, hpml4⟩ := h.shaped
  have hpages : PageManager.numPages size = pagesOf size := by
    rw [PageManager.numPages, pagesOf, kPageSize4K]
    omega
  have hk : pagesOf size ≤ 2 ^ 36 := by
    rw [pagesOf]
    omega
  rw [hpages, missingTables] at henough
  obtain ⟨label', frame, hb⟩ := hs.allocateLoop_backs hroot hpml4 v flags (pagesOf size) 0
    (by rwa [Nat.zero_add]) fun j k _ hjk hkn => rangePage_ne hjk (by omega)
  rw [allocateVirtual_aligned hv, hpages]
  have hpml4' := hb.proceeds.pml4
  have hroot' := hb.proceeds.labels _ _ hroot
  have hlabelled := hb.proceeds.shaped.labelled
  refine ⟨frame, fun j hj => ?_, fun j hj k hk => hb.own j k (Nat.zero_le j) (by omega)
    (Nat.zero_le k) (by omega), fun f hfree hused => ?_⟩
  · have hfree := hb.free j (Nat.zero_le j) (by omega)
    refine ⟨?_, hfree, hb.used j (Nat.zero_le j) (by omega), fun n hn => ?_,
      hb.clear j (Nat.zero_le j) (by omega)⟩
    · have hback := hb.backs j (Nat.zero_le j) (by omega)
      rw [rangePage_eq] at hback
      exact hback.mappedTo (hpml4'.trans hpml4) (hs.allocated.free _ hfree).2
    · rw [hpml4'] at hn
      obtain ⟨lead, hlead⟩ := hn.labelled hlabelled hroot'
      rw [hb.plain j (Nat.zero_le j) (by omega)] at hlead
      cases hlead
  · rw [hpml4']
    refine (hb.taken f hfree hused).imp ?_ ?_
    · rintro ⟨j, -, hj, rfl⟩
      exact ⟨j, by omega, rfl⟩
    · rintro ⟨q, -, k, hk⟩
      exact ⟨k, TableAt.root.of_meets hk⟩

/-- A range is backed only if it is within 48 bits. -/
theorem Backed.size_le {pm' : PageManager} (h : Backed pm v size flags pm') : size ≤ 2 ^ 48 := by
  obtain ⟨frame, hpages, hown, -⟩ := h
  by_contra hc
  -- The page 2 ^ 48 bytes on is the first one again.
  have hk : 2 ^ 36 < pagesOf size := by
    rw [pagesOf]
    omega
  have hpage : pageOf (v + 2 ^ 36 * 4096) = pageOf (v + 0 * 4096) := by
    rw [pageOf, pageOf]
    omega
  have hfirst := (hpages 0 (by omega)).1.translates
  have hagain := (hpages (2 ^ 36) hk).1.translates
  rw [translate, hpage, ← translate, hfirst] at hagain
  have hsame := hown 0 (by omega) (2 ^ 36) hk (congrArg Translation.page hagain)
  omega

/-- What the call returns true for is backed exactly if it returns false because the frames do not
even suffice for the pages and the tables of all but the last, or the range is within 48 bits and
the frames suffice for all its pages and all tables that are missing. -/
theorem allocateVirtual_backed_iff (h : CallReached pm) (hv : v % 4096 = 0) :
    ((pm.allocateVirtual v size flags).1 = true →
      Backed pm v size flags (pm.allocateVirtual v size flags).2) ↔
    (0 < PageManager.numPages size ∧ pm.frames.bitmap.freeFrames <
      PageManager.numPages size + (missingTables pm v (PageManager.numPages size - 1)).card) ∨
    (size ≤ 2 ^ 48 ∧
      PageManager.numPages size + (missingTables pm v (PageManager.numPages size)).card ≤
        pm.frames.bitmap.freeFrames) := by
  have htrue := @allocateVirtual_true_iff pm v size flags h hv
  constructor
  · intro hbacked
    by_cases hfew : 0 < PageManager.numPages size ∧ pm.frames.bitmap.freeFrames <
        PageManager.numPages size + (missingTables pm v (PageManager.numPages size - 1)).card
    · exact Or.inl hfew
    · have hanswer := htrue.mpr (by omega)
      have hb := hbacked hanswer
      have hsize := hb.size_le
      refine Or.inr ⟨hsize, ?_⟩
      by_contra hc
      -- The last page has no page table.
      obtain ⟨label, hs, hroot, hpml4⟩ := h.shaped
      rw [allocateVirtual_aligned hv] at hanswer hb
      have hlast := hs.allocateLoop_unmapped hroot hpml4 hanswer
        (by rw [Nat.zero_add]; exact Nat.lt_of_not_le hc)
      obtain ⟨label', hadv⟩ := hs.allocateLoop hroot hpml4 v flags (PageManager.numPages size) 0
      have hpages : PageManager.numPages size = pagesOf size := by
        rw [PageManager.numPages, pagesOf, kPageSize4K]
        omega
      have hpos : PageManager.numPages size ≠ 0 := by
        intro hz
        rw [hz, missingTables, missingBetween_self, Finset.card_empty] at hc
        omega
      obtain ⟨frame, hmapped, -⟩ := hb
      have htable := (hmapped (0 + PageManager.numPages size - 1) (by omega)).1.table
      rw [hadv.pml4, ← rangePage_eq, hlast] at htable
      cases htable
  · rintro (⟨hpos, hfew⟩ | ⟨hsize, henough⟩) hanswer
    · have := htrue.mp hanswer
      omega
    · exact allocateVirtual_backed h hv hsize henough

/-- With frames to spare, three pages of a 2 MB page are backed. -/
theorem allocateVirtual_backed_iff_small : ∃ pm, CallReached pm ∧
    ((pm.allocateVirtual 0x1000000 0x3000 7).1 = true →
      Backed pm 0x1000000 0x3000 7 (pm.allocateVirtual 0x1000000 0x3000 7).2) := by
  obtain ⟨pm, hpm, hfree⟩ := smallMachine_bootable.callReached (fun pm =>
    decide (12 ≤ pm.frames.bitmap.freeFrames)) (by decide +kernel)
  have hpages : PageManager.numPages 0x3000 = 3 := by decide
  have hmissing := card_missingBetween_le pm.memory (pm.pml4Table / 4096) 0x1000000 0 3
  refine ⟨pm, hpm, (allocateVirtual_backed_iff hpm (by decide)).mpr (Or.inr ⟨by decide, ?_⟩)⟩
  rw [hpages, missingTables]
  have := of_decide_eq_true hfree
  omega

/-- With one frame left, a call for one page takes it and splits nothing, and a call for two pages
fails and keeps it. -/
private theorem tightMachine_last : ∃ pm, CallReached pm ∧
    ((pm.allocateVirtual 0x1000000 4096 7).1 = true ∧
      pageFormat.meets (pm.allocateVirtual 0x1000000 4096 7).2.memory 0 3
        ((pm.allocateVirtual 0x1000000 4096 7).2.pml4Table / 4096) 0x1000 = none) ∧
    (pm.allocateVirtual 0x1000000 0x2000 7).1 = false ∧ pm.frames.bitmap.get 67 = false ∧
      (pm.allocateVirtual 0x1000000 0x2000 7).2.frames.bitmap.get 67 = true := by
  obtain ⟨pm, hpm, hrun⟩ := tightMachine_bootable.callReached (fun pm => decide
    (((pm.allocateVirtual 0x1000000 4096 7).1 = true ∧
      pageFormat.meets (pm.allocateVirtual 0x1000000 4096 7).2.memory 0 3
        ((pm.allocateVirtual 0x1000000 4096 7).2.pml4Table / 4096) 0x1000 = none) ∧
    (pm.allocateVirtual 0x1000000 0x2000 7).1 = false ∧ pm.frames.bitmap.get 67 = false ∧
      (pm.allocateVirtual 0x1000000 0x2000 7).2.frames.bitmap.get 67 = true)) (by decide +kernel)
  exact ⟨pm, hpm, of_decide_eq_true hrun⟩

/-- The last frame goes to the page, and none is left to split the 2 MB page in its way. -/
theorem allocateVirtual_not_backed : ¬∀ pm v size flags, CallReached pm → v % 4096 = 0 →
    (pm.allocateVirtual v size flags).1 = true →
      Backed pm v size flags (pm.allocateVirtual v size flags).2 := by
  intro hall
  obtain ⟨pm, hpm, ⟨htrue, hnone⟩, -⟩ := tightMachine_last
  obtain ⟨frame, hpages, -⟩ := hall pm 0x1000000 4096 7 hpm (by decide) htrue
  have htable := (hpages 0 (by decide)).1.table
  rw [show pageOf (0x1000000 + 0 * 4096) = 0x1000 by decide, hnone] at htable
  cases htable

/-- The bitmap and all translations under every root are as before. -/
structure Unchanged (pm pm' : PageManager) : Prop where
  bitmap : pm'.frames.bitmap = pm.frames.bitmap
  translations : ∀ cr3 w, translate pm'.memory cr3 w = translate pm.memory cr3 w

/-- If there is a free frame, the first page takes one. -/
theorem allocateLoop_takes (h : CallReached pm) (hfree : 0 < pm.frames.bitmap.freeFrames)
    (n i : Nat) : ∃ f, pm.frames.bitmap.get f = false ∧
      (pm.allocateLoop v flags (n + 1) i).2.frames.bitmap.get f = true := by
  obtain ⟨label, hs, hroot, hpml4⟩ := h.shaped
  rcases hs.allocateOne hroot hpml4 v flags n i with ⟨hzero, -⟩ | ⟨label', pm', he, hone⟩
  · omega
  · rw [he]
    have hgrows (ha : Proceeds (· = rangePage v i) label pm label' pm') {f : Nat}
        (hf : pm'.frames.bitmap.get f = true) :
        (pm'.allocateLoop v flags n (i + 1)).2.frames.bitmap.get f = true := by
      obtain ⟨label'', hrest⟩ := ha.shaped.allocateLoop (ha.labels _ _ hroot)
        (ha.pml4.trans hpml4) v flags n (i + 1)
      exact hrest.grows.used f hf
    rcases hone with ⟨f, hone⟩ | hone
    · exact ⟨f, hone.free, hgrows hone.proceeds hone.used⟩
    · obtain ⟨f, hf⟩ := Finset.card_pos.mp hone.before
      refine ⟨f, Bitmap.mem_freeSet.mp hf, hgrows hone.proceeds ?_⟩
      rw [Bitmap.get_eq_true_iff, Finset.card_eq_zero.mp hone.after]
      exact Finset.notMem_empty f

/-- A call that returns false has left everything as it was exactly if it was refused for its
address or found no frame at all; otherwise there were frames enough for it to return true. -/
theorem allocateVirtual_unchanged_iff (h : CallReached pm) :
    ((pm.allocateVirtual v size flags).1 = false →
      Unchanged pm (pm.allocateVirtual v size flags).2) ↔
    v % 4096 ≠ 0 ∨ pm.frames.bitmap.freeFrames = 0 ∨ PageManager.numPages size = 0 ∨
      PageManager.numPages size + (missingTables pm v (PageManager.numPages size - 1)).card ≤
        pm.frames.bitmap.freeFrames := by
  by_cases hv : v % 4096 = 0
  · have htrue := @allocateVirtual_true_iff pm v size flags h hv
    cases hanswer : (pm.allocateVirtual v size flags).1 with
    | true =>
      exact ⟨fun _ => Or.inr (Or.inr (htrue.mp hanswer)),
        fun _ hc => absurd hc.symm Bool.false_ne_true⟩
    | false =>
      have hfew : ¬(PageManager.numPages size = 0 ∨ PageManager.numPages size +
          (missingTables pm v (PageManager.numPages size - 1)).card ≤
            pm.frames.bitmap.freeFrames) := by
        rw [← htrue, hanswer]
        exact Bool.false_ne_true
      obtain ⟨n, hn⟩ := Nat.exists_eq_succ_of_ne_zero fun hz => hfew (Or.inl hz)
      rw [allocateVirtual_aligned hv, hn]
      constructor
      · intro hsame
        by_contra hc
        obtain ⟨f, hfree, hused⟩ := @allocateLoop_takes pm v flags h (by omega) n 0
        rw [(hsame rfl).bitmap, hfree] at hused
        cases hused
      · rintro (hne | hzero | hrest)
        · exact absurd hv hne
        · intro _
          obtain ⟨label, hs, hroot, hpml4⟩ := h.shaped
          rcases hs.allocateOne hroot hpml4 v flags n 0 with
            ⟨-, he⟩ | ⟨label', pm', -, ⟨f, hone⟩ | hone⟩
          · rw [he]
            exact ⟨rfl, fun _ _ => rfl⟩
          · have := hone.frames
            omega
          · have := hone.before
            omega
        · exact absurd (hn ▸ hrest) hfew
  · have he : pm.allocateVirtual v size flags = (false, pm) := by
      rw [PageManager.allocateVirtual, if_pos (by rw [kPageSize4K]; omega)]
    rw [he]
    exact ⟨fun _ => Or.inl hv, fun _ _ => ⟨rfl, fun _ _ => rfl⟩⟩

/-- A call that is refused for its address changes nothing. -/
theorem allocateVirtual_unchanged_iff_small : ∃ pm, CallReached pm ∧
    ((pm.allocateVirtual 0x1000001 4096 7).1 = false →
      Unchanged pm (pm.allocateVirtual 0x1000001 4096 7).2) := by
  obtain ⟨pm, hpm, -⟩ := smallMachine_bootable.callReached (fun _ => true)
    (by simpa only [Bool.and_true] using smallMachine_boots)
  exact ⟨pm, hpm, (allocateVirtual_unchanged_iff hpm).mpr (Or.inl (by decide))⟩

/-- The first of two pages takes the last frame and keeps it. -/
theorem allocateVirtual_not_unchanged : ¬∀ pm v size flags, CallReached pm →
    (pm.allocateVirtual v size flags).1 = false →
      Unchanged pm (pm.allocateVirtual v size flags).2 := by
  intro hall
  obtain ⟨pm, hpm, -, hfalse, hfree, hused⟩ := tightMachine_last
  rw [(hall pm 0x1000000 0x2000 7 hpm hfalse).bitmap, hfree] at hused
  cases hused

end Sylphia
