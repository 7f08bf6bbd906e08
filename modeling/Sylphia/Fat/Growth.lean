import Sylphia.Fat.Search

/-!
# Clusters are allocated

`WriteFile`, `AppendFile` and `CreateDirectory` take free clusters and link them to a
chain, which may be that of a file. What other chains have stays as it is, after each of
the sector writes.
-/

namespace Sylphia

open Bytes WriteLog Chain FAT32Driver

/-- All changes are in free clusters and in the chain `cs`, which goes on through free
clusters. -/
structure Within (fs : FAT32Driver) (V₀ : View) (cs : List Nat) (V : View) : Prop where
  same : ∀ x, V₀.fat x ≠ 0 → x ∉ cs → V.fat x = V₀.fat x ∧ V.data x = V₀.data x
  chain : ∀ c, cs.head? = some c →
    ∃ new, ClusterChain fs V c (cs ++ new) ∧ ∀ x ∈ new, V₀.fat x = 0

/-- The chain `cs` is lengthened by the clusters `new`, which were free, and nothing else
has changed. -/
structure Lengthens (fs : FAT32Driver) (V₀ V : View) (cs new : List Nat) : Prop where
  free : ∀ x ∈ new, 2 ≤ x ∧ x < 128 ∧ V₀.fat x = 0
  chain : ∀ c, (cs ++ new).head? = some c → ClusterChain fs V c (cs ++ new)
  fat : ∀ x, x ∉ cs → x ∉ new → V.fat x = V₀.fat x
  data : ∀ x, x ∉ cs → x ∉ new → V.data x = V₀.data x

section Views

variable {fs : FAT32Driver} {V₀ V : View} {c l v : Nat} {cs new init : List Nat} {buf : Buffer}

theorem Lengthens.within (h : Lengthens fs V₀ V cs new) : Within fs V₀ cs V where
  same := fun x h0 hx => by
    have hnew : x ∉ new := fun hn => h0 (h.free x hn).2.2
    exact ⟨h.fat x hx hnew, h.data x hx hnew⟩
  chain := fun c hc => by
    refine ⟨new, h.chain c ?_, fun x hx => (h.free x hx).2.2⟩
    rw [List.head?_append, hc, Option.some_or]

theorem Lengthens.refl (h : ∀ c, cs.head? = some c → ClusterChain fs V c cs) :
    Lengthens fs V V cs [] where
  free := fun x hx => by cases hx
  chain := fun c hc => by
    rw [List.append_nil] at hc ⊢
    exact h c hc
  fat := fun _ _ _ => rfl
  data := fun _ _ _ => rfl

namespace Within

/-- A free cluster is marked. -/
theorem setFat (h : Within fs V₀ cs V) (h0 : V.fat c = 0) (v : Nat) :
    Within fs V₀ cs (V.setFat c v) where
  same := fun x hx hcs => by
    obtain ⟨hfat, hdata⟩ := h.same x hx hcs
    have hne : x ≠ c := by
      rintro rfl
      exact hx (hfat ▸ h0)
    exact ⟨(View.setFat_fat_of_ne V hne v).trans hfat, hdata⟩
  chain := fun b hb => by
    obtain ⟨new, hc, hnew⟩ := h.chain b hb
    refine ⟨new, hc.congr fun x hx => ?_, hnew⟩
    have hne : x ≠ c := by
      rintro rfl
      exact fat_ne_zero hc hx h0
    rw [View.next, View.next, View.setFat_fat_of_ne V hne]

end Within

/-- What stays within the chain of one file, or of none, leaves the rest of the volume
alone. -/
theorem Within.frame (h : Within fs V₀ cs V) (hv : SoundVolume fs V₀) {T : Option Slot}
    (hfile : ∀ t, T = some t → (V₀.entry t).isDirectory = false)
    (hcs : ∀ o b es, Owns fs V₀ o b → ClusterChain fs V₀ b es →
      (∃ t, T = some t ∧ o = .slot t ∧ es = cs) ∨ ∀ x ∈ es, x ∉ cs) :
    SoundVolume fs V ∧ SameDirectories fs V₀ V ∧ Kept fs T V₀ V := by
  have hsame {b : Nat} {es : List Nat} (hc : ClusterChain fs V₀ b es) (hes : ∀ x ∈ es, x ∉ cs) :
      ∀ x ∈ es, V.fat x = V₀.fat x ∧ V.data x = V₀.data x :=
    fun x hx => h.same x (fat_ne_zero hc hx) (hes x hx)
  refine hv.frame hfile (fun o b es ho hT hc => ?_) fun t b es hT ho hc => ?_
  · rcases hcs o b es ho hc with ⟨t, ht, hot, -⟩ | hes
    · exact absurd hot (hT t ht)
    · exact hsame hc hes
  · rcases hcs _ b es ho hc with ⟨-, -, -, rfl⟩ | hes
    · obtain ⟨new, hc', hnew⟩ := h.chain b hc.head?_eq
      exact ⟨es ++ new, hc', fun x hx => (List.mem_append.mp hx).imp_right (hnew x)⟩
    · refine ⟨es, hc.congr fun x hx => ?_, fun x hx => Or.inl hx⟩
      rw [View.next, View.next, (hsame hc hes x hx).1]

namespace Lengthens

variable (h : Lengthens fs V₀ V cs new)
include h

theorem exists_chain (hc : c ∈ cs ++ new) : ∃ b, ClusterChain fs V b (cs ++ new) := by
  cases hb : (cs ++ new).head? with
  | none =>
    rw [List.head?_eq_none_iff] at hb
    rw [hb] at hc
    cases hc
  | some b => exact ⟨b, h.chain b hb⟩

/-- A free cluster is not on the chain. -/
theorem not_mem (h0 : V.fat c = 0) : c ∉ cs ++ new := by
  intro hc
  obtain ⟨b, hb⟩ := h.exists_chain hc
  exact fat_ne_zero hb hc h0

theorem lt (hc : c ∈ cs ++ new) : 2 ≤ c ∧ c < fs.fatSz32 * 128 ∧ c < endOfChain ∧ c < 2 ^ 32 := by
  obtain ⟨b, hb⟩ := h.exists_chain hc
  exact ClusterChain.lt hb hc

theorem fat_zero (h0 : V.fat c = 0) : V₀.fat c = 0 := by
  have hnot := h.not_mem h0
  rw [List.mem_append, not_or] at hnot
  rw [← h.fat c hnot.1 hnot.2]
  exact h0

private theorem free_append (h2 : 2 ≤ c) (h128 : c < 128) (h0 : V.fat c = 0) :
    ∀ x ∈ new ++ [c], 2 ≤ x ∧ x < 128 ∧ V₀.fat x = 0 := by
  intro x hx
  rcases List.mem_append.mp hx with hx | hx
  · exact h.free x hx
  · rw [List.mem_singleton.mp hx]
    exact ⟨h2, h128, h.fat_zero h0⟩

/-- The first cluster of a new chain is marked. -/
theorem start (hg : Geometry fs) (hnil : cs ++ new = []) (h2 : 2 ≤ c) (h128 : c < 128)
    (h0 : V.fat c = 0) : Lengthens fs V₀ (V.setFat c 0x0FFFFFFF) cs (new ++ [c]) where
  free := h.free_append h2 h128 h0
  chain := fun b hb => by
    rw [← List.append_assoc, hnil] at hb ⊢
    obtain rfl : c = b := Option.some.inj hb
    have hpos := hg.fatSz32_pos
    refine .last ⟨h2, by omega, by rw [endOfChain]; omega⟩ ?_
    show endOfChain ≤ _
    rw [View.next, View.setFat_fat_self]
    decide
  fat := fun x hx hn => by
    rw [List.mem_append, not_or, List.mem_singleton] at hn
    rw [View.setFat_fat_of_ne V hn.2]
    exact h.fat x hx hn.1
  data := fun x hx hn => h.data x hx fun hn' => hn (List.mem_append_left _ hn')

/-- A cluster is marked and linked to the last of the chain. -/
theorem link (hg : Geometry fs) (hlast : cs ++ new = init ++ [l]) (h2 : 2 ≤ c) (h128 : c < 128)
    (h0 : V.fat c = 0) :
    Lengthens fs V₀ ((V.setFat c 0x0FFFFFFF).setFat l c) cs (new ++ [c]) where
  free := h.free_append h2 h128 h0
  chain := fun b hb => by
    have hnot := h.not_mem h0
    rw [hlast, List.mem_append, not_or, List.mem_singleton] at hnot
    have hb' : (cs ++ new).head? = some b := by
      rw [← List.append_assoc, hlast] at hb
      rw [hlast]
      cases init with
      | nil => exact hb
      | cons => exact hb
    have hchain := h.chain b hb'
    rw [← List.append_assoc]
    rw [hlast] at hchain ⊢
    have hnd := hchain.nodup
    rw [List.nodup_append] at hnd
    have hpos := hg.fatSz32_pos
    refine hchain.append (d := c) (.last ⟨h2, by omega, by rw [endOfChain]; omega⟩ ?_) ?_ ?_
    · show endOfChain ≤ _
      rw [View.next, View.setFat_fat_of_ne _ hnot.2, View.setFat_fat_self]
      decide
    · rw [View.next, View.setFat_fat_self]
      exact Nat.mod_eq_of_lt (by omega)
    · intro x hx
      have hxl : x ≠ l := hnd.2.2 x hx l (List.mem_singleton_self l)
      have hxc : x ≠ c := by
        rintro rfl
        exact hnot.1 hx
      rw [View.next, View.next, View.setFat_fat_of_ne _ hxl, View.setFat_fat_of_ne _ hxc]
  fat := fun x hx hn => by
    have hl : l ∈ cs ++ new := by
      rw [hlast]
      exact List.mem_append_right _ (List.mem_singleton_self l)
    rw [List.mem_append, not_or, List.mem_singleton] at hn
    have hxl : x ≠ l := by
      rintro rfl
      exact (List.mem_append.mp hl).elim hx hn.1
    rw [View.setFat_fat_of_ne _ hxl, View.setFat_fat_of_ne _ hn.2]
    exact h.fat x hx hn.1
  data := fun x hx hn => h.data x hx fun hn' => hn (List.mem_append_left _ hn')

/-- The last cluster gets its end mark. -/
theorem terminate (hlast : cs ++ new = init ++ [l]) :
    Lengthens fs V₀ (V.setFat l 0x0FFFFFFF) cs new where
  free := h.free
  chain := fun b hb => by
    have hchain := h.chain b hb
    rw [hlast] at hchain ⊢
    have hnd := hchain.nodup
    rw [List.nodup_append] at hnd
    refine hchain.close ?_ fun x hx => ?_
    · show endOfChain ≤ _
      rw [View.next, View.setFat_fat_self]
      decide
    · rw [View.next, View.next,
        View.setFat_fat_of_ne _ (hnd.2.2 x hx l (List.mem_singleton_self l))]
  fat := fun x hx hn => by
    have hl : l ∈ cs ++ new := by
      rw [hlast]
      exact List.mem_append_right _ (List.mem_singleton_self l)
    have hxl : x ≠ l := by
      rintro rfl
      exact (List.mem_append.mp hl).elim hx hn
    rw [View.setFat_fat_of_ne _ hxl]
    exact h.fat x hx hn
  data := h.data

/-- The data of a cluster of the chain is written. -/
theorem setData (hc : c ∈ cs ++ new) (buf : Buffer) :
    Lengthens fs V₀ (V.setData c buf) cs new where
  free := h.free
  chain := h.chain
  fat := h.fat
  data := fun x hx hn => by
    have hxc : x ≠ c := by
      rintro rfl
      exact (List.mem_append.mp hc).elim hx hn
    rw [View.setData_data_of_ne _ hxc]
    exact h.data x hx hn

end Lengthens

end Views

/-- The clusters have the data, one after the other. -/
def Stored (fs : FAT32Driver) (V : View) (data : Buffer) (size : Nat) (cs : List Nat) : Prop :=
  ∀ j c, cs[j]? = some c → ∀ k < fs.clusterBytes, j * fs.clusterBytes + k < size →
    V.data c k = data (j * fs.clusterBytes + k)

/-- The clusters `ys` have all of the data when what is before the rest of it was in the
clusters `xs` and filled them. -/
def Stores (fs : FAT32Driver) (V V' : View) (data : Buffer) (remaining offset : Nat)
    (xs ys : List Nat) : Prop :=
  ∀ whole base, (∀ k, whole (base + k) = data k) →
    (remaining ≠ 0 → base + offset = xs.length * fs.clusterBytes) →
    Stored fs V whole (base + offset + remaining) xs →
    Stored fs V' whole (base + offset + remaining) ys

section Data

variable {fs : FAT32Driver} {dev dev' : BlockDevice} {V V' V₁ : View} {data : Buffer}
  {c prev size remaining offset : Nat} {cs xs ys : List Nat}

theorem Stored.congr (h : Stored fs V data size cs) (hc : ∀ c ∈ cs, V'.data c = V.data c) :
    Stored fs V' data size cs := by
  intro j c hj k hk hlt
  rw [hc c (List.mem_of_getElem? hj)]
  exact h j c hj k hk hlt

theorem Stored.concat (h : Stored fs V data size cs)
    (hc : ∀ k < fs.clusterBytes, cs.length * fs.clusterBytes + k < size →
      V.data c k = data (cs.length * fs.clusterBytes + k)) :
    Stored fs V data size (cs ++ [c]) := by
  intro j x hj k hk hlt
  rcases Nat.lt_or_ge j cs.length with hjl | hjl
  · rw [List.getElem?_append_left hjl] at hj
    exact h j x hj k hk hlt
  · rw [List.getElem?_append_right hjl, List.getElem?_singleton] at hj
    split at hj
    · next h0 =>
      obtain rfl : j = cs.length := by omega
      rw [← Option.some.inj hj]
      exact hc k hk hlt
    · cases hj

theorem Stores.congr (h : Stores fs V V₁ data remaining offset xs ys)
    (hc : ∀ c ∈ ys, V'.data c = V₁.data c) : Stores fs V V' data remaining offset xs ys :=
  fun whole base hwhole hoffset hstored => (h whole base hwhole hoffset hstored).congr hc

/-- One round of a loop: one more cluster gets what it has room for. -/
theorem Stores.round (hr : remaining ≠ 0) (hfresh : c ∉ xs)
    (hkeep : ∀ x, x ≠ c → V₁.data x = V.data x)
    (hnew : ∀ k < fs.clusterBytes, V₁.data c k = dataBuffer data offset
      (if remaining > fs.clusterBytes then fs.clusterBytes else remaining) k)
    (hrest : Stores fs V₁ V' data
      (remaining - if remaining > fs.clusterBytes then fs.clusterBytes else remaining)
      (offset + if remaining > fs.clusterBytes then fs.clusterBytes else remaining) (xs ++ [c])
        ys) :
    Stores fs V V' data remaining offset xs ys := by
  have hlen : (if remaining > fs.clusterBytes then fs.clusterBytes else remaining) =
      min fs.clusterBytes remaining := by
    split <;> omega
  rw [hlen] at hnew hrest
  intro whole base hwhole hoffset hstored
  have hsum : base + (offset + min fs.clusterBytes remaining) +
      (remaining - min fs.clusterBytes remaining) = base + offset + remaining := by omega
  rw [← hsum] at hstored ⊢
  refine hrest whole base hwhole (fun hmore => ?_) (Stored.concat (hstored.congr fun x hx => ?_)
    fun k hk hlt => ?_)
  · rw [List.length_append, List.length_singleton, Nat.add_mul, Nat.one_mul, ← hoffset hr]
    omega
  · refine hkeep x ?_
    rintro rfl
    exact hfresh hx
  · rw [hsum, ← hoffset hr] at hlt
    rw [hnew k hk, dataBuffer, if_pos (by omega), ← hoffset hr, Nat.add_assoc, hwhole]

/-- The marks of `AllocateCluster` are no data. -/
theorem data_allocateCluster (hg : Geometry fs) (heq : fs.allocateCluster dev = (c, dev'))
    (hc0 : c ≠ 0) : (fs.view dev'.store).data = (fs.view dev.store).data := by
  rcases allocateCluster_view hg dev with ⟨hfull, -⟩ | ⟨c', dev'', heq', -, -, -, hview, -⟩
  · rw [heq, Prod.mk.injEq] at hfull
    exact absurd hfull.1 hc0
  · rw [heq, Prod.mk.injEq] at heq'
    obtain ⟨rfl, rfl⟩ := heq'
    rw [hview, View.setFat_data]

/-- Nor are the links. -/
theorem data_linkCluster (hg : Geometry fs) (dev : BlockDevice) (hprev : prev < fs.fatSz32 * 128)
    (c : Nat) : (fs.view (fs.linkCluster dev prev c).store).data = (fs.view dev.store).data := by
  rw [(@linkCluster_view fs (fun _ => True) prev hg dev hprev c).1, View.setFat_data]

theorem data_writeCluster (hg : Geometry fs) (dev : BlockDevice) (h2 : 2 ≤ c) (h32 : c < 2 ^ 32)
    (buf : Buffer) :
    let V' := fs.view (BlockDevice.writeSectors dev (fs.clusterToLBA c) buf fs.secPerClus).store
    (∀ k < fs.clusterBytes, V'.data c k = buf k) ∧
      ∀ x, x ≠ c → V'.data x = (fs.view dev.store).data x := by
  intro V'
  have hview : V' = _ := (@writeCluster_view fs (fun _ => True) c hg dev h2 h32 buf).1
  rw [hview]
  refine ⟨fun k hk => ?_, fun x hx => View.setData_data_of_ne _ hx _⟩
  rw [View.setData_data_self, if_pos hk]

end Data

/-! ## The loops -/

/-- The number of clusters for this many bytes. -/
def FAT32Driver.clustersFor (fs : FAT32Driver) (size : Nat) : Nat :=
  (size + fs.clusterBytes - 1) / fs.clusterBytes

/-- From one device to another every write stays within bounds, and both FATs are kept. -/
structure Advance (fs : FAT32Driver) (V₀ : View) (cs : List Nat) (dev dev' : BlockDevice) :
    Prop where
  passes : Passes fs (Within fs V₀ cs) dev dev'
  mirrored : Mirrored fs dev.store → Mirrored fs dev'.store

section Loops

variable {fs : FAT32Driver} {V₀ : View} {dev dev' dev'' : BlockDevice} {c l n : Nat}
  {cs new init : List Nat}

theorem Advance.refl (h : Within fs V₀ cs (fs.view dev.store)) : Advance fs V₀ cs dev dev :=
  ⟨Logged.Through.refl h, id⟩

theorem Advance.trans (h : Advance fs V₀ cs dev dev') (h' : Advance fs V₀ cs dev' dev'') :
    Advance fs V₀ cs dev dev'' := ⟨h.passes.trans h'.passes, h'.mirrored ∘ h.mirrored⟩

theorem clusterBytes_pos (hg : Geometry fs) : 0 < fs.clusterBytes := by
  have := hg.secPerClus_pos
  rw [clusterBytes]
  omega

theorem clustersFor_zero (fs : FAT32Driver) : fs.clustersFor 0 = 0 := by
  rw [clustersFor, Nat.zero_add]
  rcases Nat.eq_zero_or_pos fs.clusterBytes with hzero | hpos
  · rw [hzero, Nat.div_zero]
  · exact Nat.div_eq_of_lt (by omega)

/-- One round of a loop takes what one cluster has room for. -/
theorem clustersFor_step (hpos : 0 < fs.clusterBytes) {size : Nat} (h : 0 < size) :
    fs.clustersFor size = fs.clustersFor
      (size - if size > fs.clusterBytes then fs.clusterBytes else size) + 1 := by
  split
  · next hlt =>
    rw [clustersFor, clustersFor, ← Nat.add_div_right _ hpos]
    congr 1
    omega
  · next hge =>
    rw [Nat.sub_self, clustersFor_zero fs, clustersFor, Nat.zero_add]
    refine Nat.div_eq_of_lt_le ?_ ?_ <;> omega

namespace Lengthens

variable (hg : Geometry fs) (h : Lengthens fs V₀ (fs.view dev.store) cs new)
include hg h

/-- The first cluster of a new chain is allocated. -/
theorem allocateFirst (hnil : cs ++ new = []) :
    (fs.allocateCluster dev = (0, dev) ∧ ∀ c, 2 ≤ c → c < 128 → (fs.view dev.store).fat c ≠ 0) ∨
    ∃ c dev', fs.allocateCluster dev = (c, dev') ∧ c ≠ 0 ∧
      Lengthens fs V₀ (fs.view dev'.store) cs (new ++ [c]) ∧ Advance fs V₀ cs dev dev' := by
  rcases allocateCluster_view hg dev with hfull | ⟨c, dev', heq, h2, h128, h0, hview, hpass⟩
  · exact Or.inl hfull
  · have hnext := h.start hg hnil h2 h128 h0
    refine Or.inr ⟨c, dev', heq, by omega, hview ▸ hnext, hpass _ h.within hnext.within,
      fun hm => ?_⟩
    have hm' := mirrored_allocateCluster hg hm
    rwa [heq] at hm'

/-- A cluster is allocated and linked to the last of the chain. -/
theorem allocateNext (hlast : cs ++ new = init ++ [l]) :
    (fs.allocateCluster dev = (0, dev) ∧ ∀ c, 2 ≤ c → c < 128 → (fs.view dev.store).fat c ≠ 0) ∨
    ∃ c dev', fs.allocateCluster dev = (c, dev') ∧ c ≠ 0 ∧
      Lengthens fs V₀ (fs.view (fs.linkCluster dev' l c).store) cs (new ++ [c]) ∧
      Advance fs V₀ cs dev (fs.linkCluster dev' l c) := by
  have hl := (h.lt (show l ∈ cs ++ new by rw [hlast]; simp)).2.1
  rcases allocateCluster_view hg dev with hfull | ⟨c, dev', heq, h2, h128, h0, hview, hpass⟩
  · exact Or.inl hfull
  · have hnext := h.link hg hlast h2 h128 h0
    have hmark := h.within.setFat h0 0x0FFFFFFF
    obtain ⟨hlink, hpass'⟩ := @linkCluster_view fs (Within fs V₀ cs) l hg dev' hl c
    rw [Nat.mod_eq_of_lt (show c < 2 ^ 32 by omega), hview] at hlink hpass'
    refine Or.inr ⟨c, dev', heq, by omega, hlink ▸ hnext,
      (hpass _ h.within hmark).trans (hpass' hmark hnext.within), fun hm => ?_⟩
    have hm' := mirrored_allocateCluster hg hm
    rw [heq] at hm'
    exact mirrored_linkCluster hg hm' hl c

/-- The data of a cluster of the chain is written. -/
theorem writeCluster (hc : c ∈ cs ++ new) (buf : Buffer) :
    Lengthens fs V₀ (fs.view
        (BlockDevice.writeSectors dev (fs.clusterToLBA c) buf fs.secPerClus).store) cs new ∧
      Advance fs V₀ cs dev
        (BlockDevice.writeSectors dev (fs.clusterToLBA c) buf fs.secPerClus) := by
  obtain ⟨h2, -, -, h32⟩ := h.lt hc
  obtain ⟨hview, hpass⟩ := @writeCluster_view fs (Within fs V₀ cs) c hg dev h2 h32 buf
  refine ⟨hview ▸ h.setData hc _, hpass (fun buf => (h.setData hc buf).within) h.within,
    fun hm => mirrored_writeSectors hg hm (dataStart_le_clusterToLBA fs c) _ _⟩

/-- The last cluster of the chain gets its end mark. -/
theorem close (hlast : cs ++ new = init ++ [l]) :
    Lengthens fs V₀ (fs.view (fs.linkCluster dev l 0x0FFFFFFF).store) cs new ∧
      Advance fs V₀ cs dev (fs.linkCluster dev l 0x0FFFFFFF) := by
  have hl := (h.lt (show l ∈ cs ++ new by rw [hlast]; simp)).2.1
  have hnext := h.terminate hlast
  obtain ⟨hview, hpass⟩ := @linkCluster_view fs (Within fs V₀ cs) l hg dev hl 0x0FFFFFFF
  rw [show (0x0FFFFFFF : Nat) % 2 ^ 32 = 0x0FFFFFFF from rfl] at hview hpass
  exact ⟨hview ▸ hnext, hpass h.within hnext.within, fun hm => mirrored_linkCluster hg hm hl _⟩

omit hg in
/-- The last cluster of the chain is no other of it. -/
theorem fresh (hlast : new = init ++ [c]) : c ∉ cs ++ init := by
  obtain ⟨b, hb⟩ := h.exists_chain (show c ∈ cs ++ new by rw [hlast]; simp)
  have hnd := hb.nodup
  rw [hlast, ← List.append_assoc] at hnd
  exact fun hmem => (List.nodup_append.mp hnd).2.2 c hmem c (List.mem_singleton_self c) rfl

end Lengthens

/-- `AllocateCluster` finds nothing in the device. -/
def DiskFull (V : View) : Prop := ∀ c, 2 ≤ c → c < 128 → V.fat c ≠ 0

/-- The clusters that a loop has taken: the first and the last of them. -/
def Taken (new : List Nat) (first last : Nat) : Prop :=
  (new = [] ∧ first = 0) ∨ (new.head? = some first ∧ ∃ init, new = init ++ [last])

/-- One round of `WriteFile` up to its data: the disk is full, or a cluster is linked to those
there are. -/
theorem Lengthens.allocateLinked (hg : Geometry fs) {first prev : Nat}
    (h : Lengthens fs V₀ (fs.view dev.store) [] new) (hnew : Taken new first prev) :
    (fs.allocateCluster dev = (0, dev) ∧ DiskFull (fs.view dev.store)) ∨
    ∃ c dev₁, fs.allocateCluster dev = (c, dev₁) ∧ c ≠ 0 ∧
      Lengthens fs V₀ (fs.view (if first = 0 then dev₁ else fs.linkCluster dev₁ prev c).store)
        [] (new ++ [c]) ∧
      Advance fs V₀ [] dev (if first = 0 then dev₁ else fs.linkCluster dev₁ prev c) ∧
      Taken (new ++ [c]) (if first = 0 then c else first) c ∧
      (fs.view (if first = 0 then dev₁ else fs.linkCluster dev₁ prev c).store).data =
        (fs.view dev.store).data := by
  rcases hnew with ⟨rfl, rfl⟩ | ⟨hhead, init, hlast⟩
  · rcases h.allocateFirst hg rfl with hfull | ⟨c, dev₁, heq, hc0, h₁, hadv⟩
    · exact Or.inl hfull
    · exact Or.inr ⟨c, dev₁, heq, hc0, h₁, hadv, Or.inr ⟨rfl, [], rfl⟩,
        data_allocateCluster hg heq hc0⟩
  · have h0 : first ≠ 0 := by
      rintro rfl
      exact absurd (h.free 0 (List.mem_of_head? hhead)).1 (by decide)
    simp only [h0, if_false]
    rcases h.allocateNext hg hlast with hfull | ⟨c, dev₁, heq, hc0, h₁, hadv⟩
    · exact Or.inl hfull
    · refine Or.inr ⟨c, dev₁, heq, hc0, h₁, hadv, Or.inr ⟨?_, new, rfl⟩, ?_⟩
      · rw [List.head?_append, hhead, Option.some_or]
      · have hprev := (h.lt (show prev ∈ [] ++ new by rw [hlast]; simp)).2.1
        rw [data_linkCluster hg dev₁ hprev, data_allocateCluster hg heq hc0]

/-- The loop of `WriteFile` takes as many clusters as the data needs, or all there are. -/
theorem writeLoop_spec (hg : Geometry fs) (data : Buffer) {remaining offset first prev : Nat}
    (h : Lengthens fs V₀ (fs.view dev.store) [] new) (hnew : Taken new first prev)
    (hn : remaining < n) :
    ∃ more dev', Lengthens fs V₀ (fs.view dev'.store) [] (new ++ more) ∧
      Advance fs V₀ [] dev dev' ∧
      Stores fs (fs.view dev.store) (fs.view dev'.store) data remaining offset new (new ++ more) ∧
      ((fs.writeLoop data n dev remaining offset first prev = some (none, dev') ∧
          more.length < fs.clustersFor remaining ∧ DiskFull (fs.view dev'.store)) ∨
        ∃ first' last, fs.writeLoop data n dev remaining offset first prev =
            some (some (first', last), dev') ∧
          more.length = fs.clustersFor remaining ∧ Taken (new ++ more) first' last) := by
  induction n generalizing dev remaining offset first prev new with
  | zero => exact absurd hn (Nat.not_lt_zero _)
  | succ n ih =>
    rw [writeLoop]
    by_cases hr : remaining = 0
    · subst hr
      refine ⟨[], dev, ?_, .refl h.within, ?_,
        Or.inr ⟨first, prev, if_pos rfl, (clustersFor_zero fs).symm, ?_⟩⟩
      · rwa [List.append_nil]
      · rw [List.append_nil]
        exact fun _ _ _ _ hstored => hstored
      · rwa [List.append_nil]
    · rw [if_neg hr]
      have hstep := clustersFor_step (clusterBytes_pos hg) (Nat.pos_of_ne_zero hr)
      rcases h.allocateLinked hg hnew with
        ⟨heq, hfull⟩ | ⟨c, dev₁, heq, hc0, h₁, hadv₁, htaken, hdata⟩
      · rw [heq]
        refine ⟨[], dev, by rwa [List.append_nil], .refl h.within, ?_, Or.inl ⟨rfl, ?_, hfull⟩⟩
        · rw [List.append_nil]
          exact fun _ _ _ _ hstored => hstored
        · rw [hstep]
          exact Nat.succ_pos _
      · rw [heq]
        dsimp only
        rw [if_neg hc0]
        have hmem : c ∈ [] ++ (new ++ [c]) := by simp
        obtain ⟨h₂, hadv₂⟩ := h₁.writeCluster hg hmem (dataBuffer data offset
          (if remaining > fs.clusterBytes then fs.clusterBytes else remaining))
        have hless : remaining - (if remaining > fs.clusterBytes then fs.clusterBytes
            else remaining) < n := by
          have := hg.secPerClus_pos
          rw [clusterBytes]
          split <;> omega
        obtain ⟨h2, -, -, h32⟩ := h₁.lt hmem
        obtain ⟨hself, hothers⟩ := data_writeCluster hg
          (if first = 0 then dev₁ else fs.linkCluster dev₁ prev c) h2 h32
          (dataBuffer data offset
            (if remaining > fs.clusterBytes then fs.clusterBytes else remaining))
        rw [hdata] at hothers
        obtain ⟨more, dev', h', hadv', hstores, hres⟩ := ih h₂ htaken hless
        refine ⟨c :: more, dev', ?_, hadv₁.trans (hadv₂.trans hadv'), ?_, ?_⟩
        · rwa [List.append_assoc] at h'
        · rw [List.append_assoc] at hstores
          exact .round hr (h₁.fresh rfl) hothers hself hstores
        · rcases hres with ⟨hres, hlen, hfull⟩ | ⟨first', last, hres, hlen, htaken'⟩
          · refine Or.inl ⟨hres, ?_, hfull⟩
            rw [hstep, List.length_cons]
            omega
          · refine Or.inr ⟨first', last, hres, ?_, ?_⟩
            · rw [hstep, List.length_cons, hlen]
            · rwa [List.append_assoc] at htaken'

/-- The loop of `AppendFile` takes as many clusters as the data needs, or all there are. -/
theorem appendLoop_spec (hg : Geometry fs) (data : Buffer) {remaining offset prev : Nat}
    (h : Lengthens fs V₀ (fs.view dev.store) cs new) (hlast : cs ++ new = init ++ [prev])
    (hn : remaining < n) :
    ∃ more last dev', fs.appendLoop data n dev remaining offset prev = some (last, dev') ∧
      Lengthens fs V₀ (fs.view dev'.store) cs (new ++ more) ∧ Advance fs V₀ cs dev dev' ∧
      (∃ init, cs ++ (new ++ more) = init ++ [last]) ∧
      Stores fs (fs.view dev.store) (fs.view dev'.store) data remaining offset (cs ++ new)
        (cs ++ (new ++ more)) ∧
      (more.length = fs.clustersFor remaining ∨
        more.length < fs.clustersFor remaining ∧ DiskFull (fs.view dev'.store)) := by
  induction n generalizing dev remaining offset prev new init with
  | zero => exact absurd hn (Nat.not_lt_zero _)
  | succ n ih =>
    rw [appendLoop]
    by_cases hr : remaining = 0
    · subst hr
      refine ⟨[], prev, dev, if_pos rfl, ?_, .refl h.within, ⟨init, ?_⟩, ?_,
        Or.inl (clustersFor_zero fs).symm⟩
      · rwa [List.append_nil]
      · rwa [List.append_nil]
      · rw [List.append_nil]
        exact fun _ _ _ _ hstored => hstored
    · rw [if_neg hr]
      have hstep := clustersFor_step (clusterBytes_pos hg) (Nat.pos_of_ne_zero hr)
      have hprev := (h.lt (show prev ∈ cs ++ new by rw [hlast]; simp)).2.1
      rcases h.allocateNext hg hlast with ⟨heq, hfull⟩ | ⟨c, dev₁, heq, hc0, h₁, hadv₁⟩
      · rw [heq]
        refine ⟨[], prev, dev, rfl, by rwa [List.append_nil], .refl h.within,
          ⟨init, by rwa [List.append_nil]⟩, ?_, Or.inr ⟨?_, hfull⟩⟩
        · rw [List.append_nil]
          exact fun _ _ _ _ hstored => hstored
        · rw [hstep]
          exact Nat.succ_pos _
      · rw [heq]
        dsimp only
        rw [if_neg hc0]
        have hmem : c ∈ cs ++ (new ++ [c]) := by simp
        obtain ⟨h₂, hadv₂⟩ := h₁.writeCluster hg hmem (dataBuffer data offset
          (if remaining > fs.clusterBytes then fs.clusterBytes else remaining))
        have hless : remaining - (if remaining > fs.clusterBytes then fs.clusterBytes
            else remaining) < n := by
          have := hg.secPerClus_pos
          rw [clusterBytes]
          split <;> omega
        obtain ⟨h2, -, -, h32⟩ := h₁.lt hmem
        obtain ⟨hself, hothers⟩ := data_writeCluster hg (fs.linkCluster dev₁ prev c) h2 h32
          (dataBuffer data offset
            (if remaining > fs.clusterBytes then fs.clusterBytes else remaining))
        rw [data_linkCluster hg dev₁ hprev, data_allocateCluster hg heq hc0] at hothers
        obtain ⟨more, last, dev', hres, h', hadv', hend, hstores, hlen⟩ :=
          ih h₂ (List.append_assoc cs new [c]).symm hless
        refine ⟨c :: more, last, dev', hres, ?_, hadv₁.trans (hadv₂.trans hadv'), ?_, ?_, ?_⟩
        · rwa [List.append_assoc] at h'
        · rwa [List.append_assoc new] at hend
        · rw [← List.append_assoc, List.append_assoc new] at hstores
          exact .round hr (h₁.fresh rfl) hothers hself hstores
        · rw [hstep, List.length_cons]
          rcases hlen with hlen | ⟨hlen, hfull⟩
          · exact Or.inl (congrArg (· + 1) hlen)
          · exact Or.inr ⟨Nat.succ_lt_succ hlen, hfull⟩

/-- The loop of `AppendFile` and the end mark. -/
private theorem appendRest_spec (hg : Geometry fs) (data : Buffer)
    {remaining offset last : Nat}
    (hn : remaining < n) (h : Lengthens fs V₀ (fs.view dev.store) cs new)
    (hlast : cs ++ new = init ++ [last]) :
    ∃ more dev', (fs.appendLoop data n dev remaining offset last).map
        (fun r => fs.linkCluster r.2 r.1 0x0FFFFFFF) = some dev' ∧
      Lengthens fs V₀ (fs.view dev'.store) cs (new ++ more) ∧ Advance fs V₀ cs dev dev' ∧
      (more.length = fs.clustersFor remaining ∨
        more.length < fs.clustersFor remaining ∧ DiskFull (fs.view dev'.store)) ∧
      Stores fs (fs.view dev.store) (fs.view dev'.store) data remaining offset (cs ++ new)
        (cs ++ (new ++ more)) := by
  obtain ⟨more, last', dev', heq, h', hadv', ⟨init', hlast'⟩, hstores, hlen⟩ :=
    @appendLoop_spec fs V₀ dev n cs new init hg data remaining offset last h hlast hn
  obtain ⟨h'', hadv''⟩ := h'.close hg hlast'
  have hl := (h'.lt (show last' ∈ cs ++ (new ++ more) by rw [hlast']; simp)).2.1
  rw [heq]
  refine ⟨more, _, rfl, h'', hadv'.trans hadv'',
    hlen.imp_right fun hless => ⟨hless.1, fun c h2 h128 => ?_⟩,
    hstores.congr fun x _ => by rw [data_linkCluster hg dev' hl]⟩
  rw [(@linkCluster_view fs (fun _ => True) last' hg dev' hl 0x0FFFFFFF).1]
  by_cases hc : c = last'
  · rw [hc, View.setFat_fat_self]
    decide
  · rw [View.setFat_fat_of_ne _ hc]
    exact hless.2 c h2 h128

end Loops

/-! ## The last cluster of a file -/

/-- The bytes that `AppendFile` may put into the last cluster of a file of this size. -/
def FAT32Driver.roomInLast (fs : FAT32Driver) (oldSize : Nat) : Nat :=
  if oldSize = 0 then 0 else fs.clusterBytes - fs.usedInLast oldSize

section Sizes

variable {fs : FAT32Driver} {oldSize size : Nat}

theorem clustersFor_eq {q : Nat} (hle : size ≤ q * fs.clusterBytes)
    (hlt : q * fs.clusterBytes < size + fs.clusterBytes) : fs.clustersFor size = q := by
  rw [clustersFor]
  refine Nat.div_eq_of_lt_le (by omega) ?_
  rw [Nat.add_mul, Nat.one_mul]
  omega

theorem clustersFor_spec (hpos : 0 < fs.clusterBytes) (size : Nat) :
    size ≤ fs.clustersFor size * fs.clusterBytes ∧
      fs.clustersFor size * fs.clusterBytes < size + fs.clusterBytes := by
  have hdiv := Nat.div_add_mod (size + fs.clusterBytes - 1) fs.clusterBytes
  have hmod := Nat.mod_lt (size + fs.clusterBytes - 1) hpos
  rw [Nat.mul_comm] at hdiv
  rw [clustersFor]
  omega

/-- The last cluster of a file is filled up. -/
theorem add_roomInLast (hg : Geometry fs) (h : 0 < oldSize) :
    oldSize + fs.roomInLast oldSize = fs.clustersFor oldSize * fs.clusterBytes := by
  have hpos := clusterBytes_pos hg
  have hdiv := Nat.div_add_mod oldSize fs.clusterBytes
  have hlt := Nat.mod_lt oldSize hpos
  rw [Nat.mul_comm] at hdiv
  rw [roomInLast, if_neg (by omega), usedInLast]
  by_cases hmod : oldSize % fs.clusterBytes = 0
  · rw [if_pos ⟨hmod, h⟩, Nat.sub_self, clustersFor_eq (q := oldSize / fs.clusterBytes)] <;> omega
  · have hq : (oldSize / fs.clusterBytes + 1) * fs.clusterBytes =
        oldSize / fs.clusterBytes * fs.clusterBytes + fs.clusterBytes := by
      rw [Nat.add_mul, Nat.one_mul]
    rw [if_neg fun hc => hmod hc.1, clustersFor_eq (q := oldSize / fs.clusterBytes + 1)] <;> omega

/-- The clusters of a longer file. -/
theorem clustersFor_add (hg : Geometry fs) (h : 0 < oldSize) (size : Nat) :
    fs.clustersFor (oldSize + size) =
      fs.clustersFor oldSize + fs.clustersFor (size - fs.roomInLast oldSize) := by
  have hroom := add_roomInLast hg h
  have hold := clustersFor_spec (clusterBytes_pos hg) oldSize
  have hmore := clustersFor_spec (clusterBytes_pos hg) (size - fs.roomInLast oldSize)
  refine clustersFor_eq ?_ ?_
  · rw [Nat.add_mul]
    omega
  · rw [Nat.add_mul]
    rcases Nat.lt_or_ge (fs.roomInLast oldSize) size with hlt | hge
    · omega
    · rw [Nat.sub_eq_zero_of_le hge, clustersFor_zero fs]
      omega

end Sizes

/-- The contents of a file, and the data behind them. -/
def joined (content : Buffer) (oldSize : Nat) (data : Buffer) : Buffer := fun k =>
  if k < oldSize then content k else data (k - oldSize)

section Last

variable {fs : FAT32Driver} {V₀ V V' : View} {dev : BlockDevice} {content data buf : Buffer}
  {l size oldSize : Nat} {cs xs new init : List Nat}

theorem joined_add (content data : Buffer) (oldSize k : Nat) :
    joined content oldSize data (oldSize + k) = data k := by
  rw [joined, if_neg (by omega), Nat.add_sub_cancel_left]

theorem slice_joined (content data : Buffer) (oldSize size : Nat) :
    slice (joined content oldSize data) 0 (oldSize + size) =
      slice content 0 oldSize ++ slice data 0 size := by
  rw [slice_add]
  congr 1
  · refine slice_congr fun k hk => ?_
    rw [joined, if_pos (by omega)]
  · refine slice_congr fun k _ => ?_
    rw [joined_add]

/-- A file whose clusters are full has room for nothing in them. -/
theorem Stored.joined_of_full (h : Stored fs V content oldSize xs)
    (hfull : xs.length * fs.clusterBytes = oldSize) :
    Stored fs V (joined content oldSize data) (oldSize + size) xs := by
  intro j x hj k hk hlt
  have hjl := (List.getElem?_eq_some_iff.mp hj).1
  have hle := Nat.mul_le_mul_right fs.clusterBytes (show j + 1 ≤ xs.length from hjl)
  rw [Nat.add_mul, Nat.one_mul] at hle
  rw [joined, if_pos (by omega)]
  exact h j x hj k hk (by omega)

/-- The last cluster of a file is filled up with the data. -/
theorem Stored.fill (hg : Geometry fs) (h : Stored fs V content oldSize (init ++ [l]))
    (hold : 0 < oldSize) (hlen : (init ++ [l]).length = fs.clustersFor oldSize) (hfresh : l ∉ init)
    (hothers : ∀ x, x ≠ l → V'.data x = V.data x) (hbuf : ∀ k < fs.clusterBytes, buf k = V.data l k)
    (hself : ∀ k < fs.clusterBytes, V'.data l k = splice buf (fs.usedInLast oldSize)
      (slice data 0 (min size (fs.roomInLast oldSize))) k) :
    Stored fs V' (joined content oldSize data) (oldSize + size) (init ++ [l]) := by
  have hroom := add_roomInLast hg hold
  have hused : fs.roomInLast oldSize = fs.clusterBytes - fs.usedInLast oldSize := if_neg hold.ne'
  have hle : fs.usedInLast oldSize ≤ fs.clusterBytes := by
    have := Nat.mod_lt oldSize (clusterBytes_pos hg)
    rw [usedInLast]
    split <;> omega
  rw [← hlen, List.length_append, List.length_singleton, Nat.add_mul, Nat.one_mul] at hroom
  intro j x hj k hk hlt
  rcases Nat.lt_or_ge j init.length with hjl | hjl
  · have hmem := List.getElem?_append_left hjl ▸ hj
    have hle' := Nat.mul_le_mul_right fs.clusterBytes (show j + 1 ≤ init.length from hjl)
    rw [Nat.add_mul, Nat.one_mul] at hle'
    rw [hothers x fun hx => hfresh (hx ▸ List.mem_of_getElem? hmem), joined, if_pos (by omega)]
    exact h j x hj k hk (by omega)
  · have hjx : j = init.length ∧ l = x := by
      rw [List.getElem?_append_right hjl, List.getElem?_singleton] at hj
      split at hj
      · exact ⟨by omega, Option.some.inj hj⟩
      · cases hj
    obtain ⟨rfl, rfl⟩ := hjx
    rw [hself k hk]
    rcases Nat.lt_or_ge k (fs.usedInLast oldSize) with hku | hku
    · rw [splice_of_lt hku, hbuf k hk, joined, if_pos (by omega)]
      exact h init.length l hj k hk (by omega)
    · have hsub : init.length * fs.clusterBytes + k - oldSize = k - fs.usedInLast oldSize := by
        omega
      rw [splice, if_pos hku, getElem?_slice, if_pos (by omega), Option.getD_some, Nat.zero_add,
        joined, if_neg (by omega), hsub]

/-- `AppendFile` fills the last cluster and takes new ones. -/
theorem appendData_spec (hg : Geometry fs) (data : Buffer) (size oldSize : Nat)
    (h : Lengthens fs V₀ (fs.view dev.store) cs new) (hlast : cs ++ new = init ++ [l]) :
    let dev' := fs.appendData dev data size oldSize l
    ∃ more, Lengthens fs V₀ (fs.view dev'.store) cs (new ++ more) ∧ Advance fs V₀ cs dev dev' ∧
      (more.length = fs.clustersFor (size - fs.roomInLast oldSize) ∨
        more.length < fs.clustersFor (size - fs.roomInLast oldSize) ∧
          DiskFull (fs.view dev'.store)) ∧
      (oldSize = 0 → Stores fs (fs.view dev.store) (fs.view dev'.store) data size 0 (cs ++ new)
        (cs ++ (new ++ more))) ∧
      (0 < oldSize → (cs ++ new).length = fs.clustersFor oldSize → ∀ content,
        Stored fs (fs.view dev.store) content oldSize (cs ++ new) →
        Stored fs (fs.view dev'.store) (joined content oldSize data) (oldSize + size)
          (cs ++ (new ++ more))) := by
  have hmem : l ∈ cs ++ new := by
    rw [hlast]
    simp
  have hstart {dev₁ : BlockDevice} {remaining : Nat} (offset : Nat) (hn : remaining ≤ size)
      (h₁ : Lengthens fs V₀ (fs.view dev₁.store) cs new) :=
    @appendRest_spec fs V₀ dev₁ (size + 1) cs new init hg data remaining offset l
      (Nat.lt_succ_of_le hn) h₁ hlast
  rw [appendData, appendDataWithin]
  dsimp only
  by_cases hfits :
      (if oldSize = 0 then fs.clusterBytes else fs.clusterBytes - fs.usedInLast oldSize) > 0
        ∧ oldSize > 0
  · have hold : oldSize ≠ 0 := by omega
    have hroom : fs.roomInLast oldSize = fs.clusterBytes - fs.usedInLast oldSize := if_neg hold
    simp only [if_neg hold] at hfits ⊢
    simp only [if_pos hfits]
    have hmin : (if size > fs.clusterBytes - fs.usedInLast oldSize then
        fs.clusterBytes - fs.usedInLast oldSize else size) = min size (fs.roomInLast oldSize) := by
      rw [hroom]
      split <;> omega
    rw [hmin]
    obtain ⟨h2, -, -, h32⟩ := h.lt hmem
    obtain ⟨h₁, hadv₁⟩ := h.writeCluster hg hmem (splice
      (BlockDevice.read dev (fs.clusterToLBA l)) (fs.usedInLast oldSize)
      (slice data 0 (min size (fs.roomInLast oldSize))))
    obtain ⟨hself, hothers⟩ := data_writeCluster hg dev h2 h32 (splice
      (BlockDevice.read dev (fs.clusterToLBA l)) (fs.usedInLast oldSize)
      (slice data 0 (min size (fs.roomInLast oldSize))))
    obtain ⟨more, dev', heq, h', hadv', hlen, hstores⟩ := hstart (min size (fs.roomInLast oldSize))
      (Nat.sub_le size (min size (fs.roomInLast oldSize))) h₁
    rw [heq, Option.getD_some]
    refine ⟨more, h', hadv₁.trans hadv', ?_, fun h0 => absurd h0 hold, fun _ hxs content hst => ?_⟩
    · have hsub : size - min size (fs.roomInLast oldSize) = size - fs.roomInLast oldSize := by omega
      rwa [hsub] at hlen
    · have hfresh : l ∉ init := by
        obtain ⟨b, hb⟩ := h.exists_chain hmem
        have hnd := hb.nodup
        rw [hlast] at hnd
        exact fun hl => (List.nodup_append.mp hnd).2.2 l hl l (List.mem_singleton_self l) rfl
      have hadd := add_roomInLast hg hfits.2
      rw [← hxs] at hadd
      rw [hlast] at hst hxs
      have hfill := hst.fill hg hfits.2 hxs hfresh hothers (fun k hk => read_cluster dev h2 h32 hk)
        hself
      rw [← hlast] at hfill
      have hsum : oldSize + min size (fs.roomInLast oldSize) +
          (size - min size (fs.roomInLast oldSize)) = oldSize + size := by omega
      have hall := hstores (joined content oldSize data) oldSize (joined_add content data oldSize)
        (fun hmore => by omega)
      rw [hsum] at hall
      exact hall hfill
  · have hroom : fs.roomInLast oldSize = 0 := by
      rw [roomInLast]
      split at hfits <;> split <;> omega
    simp only [if_neg hfits]
    rw [hroom]
    obtain ⟨more, dev', heq, h', hadv', hlen, hstores⟩ := hstart 0 (Nat.sub_le size 0) h
    rw [heq, Option.getD_some]
    refine ⟨more, h', hadv', hlen, fun _ => hstores, fun hold hxs content hst => ?_⟩
    have hadd := add_roomInLast hg hold
    rw [hroom, ← hxs] at hadd
    exact hstores (joined content oldSize data) oldSize (joined_add content data oldSize)
      (fun _ => hadd) (hst.joined_of_full hadd.symm)

end Last

end Sylphia
