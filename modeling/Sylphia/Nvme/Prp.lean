import Sylphia.Core.WriteLog
import Sylphia.Memory.Manager
import Sylphia.Nvme.Queues

/-!
# The data pointers of an NVMe command

`SetupPRPs` puts the pages of a buffer into the two data pointers of a command, or into a list
in a page of its own that the second one points to. Addresses wrap around at `2 ^ 64`, sizes
at `2 ^ 32`. The controller reads the data pointers back by rules that do not look at the
buffer.
-/

namespace Sylphia.Nvme

open WriteLog

/-- Memory, in words of eight bytes by their address, and the frames. -/
structure Machine where
  memory : Logged (BitVec 64) (BitVec 64)
  manager : MemoryManager

/-- What `SetupPRPs` leaves behind: the command, the list that it returns, and the machine. -/
structure PrpSetup where
  cmd : SubmissionQueueEntry
  prpList : BitVec 64
  machine : Machine

/-- The address of `prp_list[i]`. -/
def listSlot (prpList : BitVec 64) (i : Nat) : BitVec 64 := prpList + 8 * BitVec.ofNat 64 i

/-- The loop over the pages of the list, `n` of them from `prp_list[i]` on. -/
def fillList (prpList : BitVec 64) :
    Nat → Nat → BitVec 64 → Logged (BitVec 64) (BitVec 64) → Logged (BitVec 64) (BitVec 64)
  | 0, _, _, memory => memory
  | n + 1, i, currentPage, memory =>
    fillList prpList n (i + 1) (currentPage + 4096)
      (memory.write (listSlot prpList i) currentPage)

/-- `SetupPRPs`. -/
def setupPRPs (m : Machine) (cmd : SubmissionQueueEntry) (addr : BitVec 64) (size : BitVec 32) :
    PrpSetup :=
  let cmd := { cmd with prp1 := addr }
  let pageSize : BitVec 32 := 4096
  let offset := (addr &&& (pageSize - 1).setWidth 64).setWidth 32
  let pageCapacity := pageSize - offset
  if size ≤ pageCapacity then ⟨{ cmd with prp2 := 0 }, 0, m⟩
  else
    let remaining := size - pageCapacity
    let nextPageAddr := (addr &&& ~~~(pageSize - 1).setWidth 64) + pageSize.setWidth 64
    if remaining ≤ pageSize then ⟨{ cmd with prp2 := nextPageAddr }, 0, m⟩
    else
      let numPages := (remaining + pageSize - 1) / pageSize
      let (ptr, manager) := m.manager.allocate 4096
      let prpList := BitVec.ofNat 64 ptr
      let memory := fillList prpList numPages.toNat 0 nextPageAddr m.memory
      ⟨{ cmd with prp2 := prpList }, prpList, ⟨memory, manager⟩⟩

/-- The bytes from an address to the end of its page. -/
def pageCapacity (addr : BitVec 64) : Nat := 4096 - addr.toNat % 4096

/-- The page behind that of an address. -/
def nextPage (addr : BitVec 64) : BitVec 64 := addr + BitVec.ofNat 64 (pageCapacity addr)

/-- The entries of the list for a transfer, as many as the loop makes. -/
def listPages (addr : BitVec 64) (size : BitVec 32) : Nat :=
  if size.toNat ≤ pageCapacity addr + 4096 then 0
  else (size.toNat - pageCapacity addr + 4095) % 2 ^ 32 / 4096

theorem pageCapacity_pos (addr : BitVec 64) : 0 < pageCapacity addr ∧ pageCapacity addr ≤ 4096 := by
  have hlt := Nat.mod_lt addr.toNat (show 0 < 4096 by decide)
  rw [pageCapacity]
  omega

private theorem and_page (addr : BitVec 64) : (addr &&& 4095).toNat = addr.toNat % 4096 := by
  rw [BitVec.toNat_and]
  exact Nat.and_two_pow_sub_one_eq_mod _ 12

private theorem capacity_toNat (addr : BitVec 64) :
    ((4096 : BitVec 32) - (addr &&& ((4096 : BitVec 32) - 1).setWidth 64).setWidth 32).toNat =
      pageCapacity addr := by
  have hand : (addr &&& ((4096 : BitVec 32) - 1).setWidth 64).toNat = addr.toNat % 4096 :=
    and_page addr
  have hlt := Nat.mod_lt addr.toNat (show 0 < 4096 by decide)
  have hpage : (4096 : BitVec 32).toNat = 4096 := rfl
  rw [BitVec.toNat_sub, BitVec.toNat_setWidth, hand, hpage, pageCapacity]
  omega

private theorem and_not_page (addr : BitVec 64) :
    (addr &&& ~~~((4096 : BitVec 32) - 1).setWidth 64) + (4096 : BitVec 32).setWidth 64 =
      nextPage addr := by
  have hsplit : (addr &&& ~~~4095) + (addr &&& 4095) = addr := by
    rw [BitVec.add_eq_or_of_and_eq_zero]
    · ext i hi
      simp only [BitVec.getElem_or, BitVec.getElem_and, BitVec.getElem_not]
      cases addr[i] <;> simp
    · ext i hi
      simp only [BitVec.getElem_and, BitVec.getElem_not]
      cases addr[i] <;> simp
  have hmask : ((4096 : BitVec 32) - 1).setWidth 64 = 4095 := by decide
  have hpage : (4096 : BitVec 32).setWidth 64 = 4096 := by decide
  have hlow := and_page addr
  have hlt := Nat.mod_lt addr.toNat (show 0 < 4096 by decide)
  have haddr := congrArg BitVec.toNat hsplit
  rw [hmask, hpage, nextPage, pageCapacity]
  apply BitVec.eq_of_toNat_eq
  rw [BitVec.toNat_add] at haddr ⊢
  rw [BitVec.toNat_add, BitVec.toNat_ofNat, show (4096 : BitVec 64).toNat = 4096 from rfl]
  rw [hlow] at haddr
  omega

/-- The three ways in which the data pointers are set, by the size of the transfer. -/
theorem setupPRPs_eq (m : Machine) (cmd : SubmissionQueueEntry) (addr : BitVec 64)
    (size : BitVec 32) : setupPRPs m cmd addr size =
      if size.toNat ≤ pageCapacity addr then ⟨{ cmd with prp1 := addr, prp2 := 0 }, 0, m⟩
      else if size.toNat ≤ pageCapacity addr + 4096 then
        ⟨{ cmd with prp1 := addr, prp2 := nextPage addr }, 0, m⟩
      else
        let prpList := BitVec.ofNat 64 (m.manager.allocate 4096).1
        ⟨{ cmd with prp1 := addr, prp2 := prpList }, prpList,
          ⟨fillList prpList (listPages addr size) 0 (nextPage addr) m.memory,
            (m.manager.allocate 4096).2⟩⟩ := by
  have hcapacity := capacity_toNat addr
  have hpos := pageCapacity_pos addr
  have hpage : (4096 : BitVec 32).toNat = 4096 := rfl
  have hsize := size.isLt
  simp only [setupPRPs, BitVec.le_def, hcapacity, and_not_page]
  split
  · rfl
  · next hone =>
    have hremaining : (size - (4096 - (addr &&& ((4096 : BitVec 32) - 1).setWidth 64).setWidth 32)
        : BitVec 32).toNat = size.toNat - pageCapacity addr := by
      rw [BitVec.toNat_sub, hcapacity]
      omega
    rw [hremaining, hpage]
    by_cases htwo : size.toNat ≤ pageCapacity addr + 4096
    · rw [if_pos (by omega), if_pos htwo]
    · rw [if_neg (by omega), if_neg htwo]
      have hpages : ((size - (4096 - (addr &&& ((4096 : BitVec 32) - 1).setWidth 64).setWidth 32)
          + 4096 - 1) / 4096 : BitVec 32).toNat = listPages addr size := by
        rw [BitVec.toNat_udiv, BitVec.toNat_sub, BitVec.toNat_add, hremaining, hpage,
          show (1 : BitVec 32).toNat = 1 from rfl, listPages, if_neg htwo]
        omega
      rw [hpages]

section List

variable {prpList : BitVec 64} {n i k : Nat}

theorem page_succ (page : BitVec 64) (k : Nat) :
    page + 4096 + 4096 * BitVec.ofNat 64 k = page + 4096 * BitVec.ofNat 64 (k + 1) := by
  rw [BitVec.ofNat_add, BitVec.mul_add, BitVec.add_comm (4096 * _), ← BitVec.add_assoc]
  rfl

/-- The slots of a list are apart from one another. -/
theorem listSlot_ne (hik : i ≠ k) (hi : i < 2 ^ 61) (hk : k < 2 ^ 61) :
    listSlot prpList i ≠ listSlot prpList k := by
  intro heq
  have hcancel := congrArg BitVec.toNat ((BitVec.add_right_inj prpList).mp heq)
  rw [BitVec.toNat_mul, BitVec.toNat_mul, BitVec.toNat_ofNat, BitVec.toNat_ofNat,
    show (8 : BitVec 64).toNat = 8 from rfl] at hcancel
  omega

/-- The loop writes one entry after the other. -/
theorem fillList_log (prpList page : BitVec 64) (memory : Logged (BitVec 64) (BitVec 64))
    (n i : Nat) : (fillList prpList n i page memory).log = memory.log ++
      (List.range n).map fun k =>
        (listSlot prpList (i + k), page + 4096 * BitVec.ofNat 64 k) := by
  induction n generalizing i page memory with
  | zero => simp [fillList]
  | succ n ih =>
    rw [fillList, ih, Logged.write, List.append_assoc, List.range_succ_eq_map]
    simp only [List.map_cons, List.map_map, List.cons_append, List.nil_append]
    congr 2
    · simp
    · refine List.map_congr_left fun k _ => ?_
      rw [Function.comp_apply, page_succ, show i + 1 + k = i + (k + 1) by omega]

theorem fillList_store_of_lt (prpList page : BitVec 64)
    (memory : Logged (BitVec 64) (BitVec 64)) (hk : k < i) (hn : i + n ≤ 2 ^ 61) :
    (fillList prpList n i page memory).store (listSlot prpList k) =
      memory.store (listSlot prpList k) := by
  induction n generalizing i page memory with
  | zero => rfl
  | succ n ih =>
    rw [fillList, ih _ _ (by omega) (by omega)]
    exact Logged.write_store_of_ne _ (listSlot_ne (by omega) (by omega) (by omega)) _

/-- What the loop has written is read back. -/
theorem fillList_store (prpList page : BitVec 64) (memory : Logged (BitVec 64) (BitVec 64))
    (hk : k < n) (hn : i + n ≤ 2 ^ 61) :
    (fillList prpList n i page memory).store (listSlot prpList (i + k)) =
      page + 4096 * BitVec.ofNat 64 k := by
  induction n generalizing i k page memory with
  | zero => exact absurd hk (Nat.not_lt_zero k)
  | succ n ih =>
    rw [fillList]
    cases k with
    | zero =>
      have hlater := fillList_store_of_lt prpList (page + 4096)
        (memory.write (listSlot prpList i) page) (Nat.lt_add_one i)
        (show i + 1 + n ≤ 2 ^ 61 by omega)
      refine hlater.trans ((Logged.write_store_self ..).trans ?_)
      simp
    | succ k =>
      rw [show i + (k + 1) = i + 1 + k by omega, ih _ _ (by omega) (by omega), page_succ]

theorem fillList_within {R : BitVec 64 → Prop} (page : BitVec 64)
    (memory : Logged (BitVec 64) (BitVec 64))
    (h : ∀ k, i ≤ k → k < i + n → R (listSlot prpList k)) :
    Logged.Within R memory (fillList prpList n i page memory) := by
  induction n generalizing i page memory with
  | zero => exact .refl R memory
  | succ n ih =>
    rw [fillList]
    exact (Logged.within_write memory page (h i (Nat.le_refl i) (by omega))).trans
      (ih _ _ fun k hik hk => h k (by omega) (by omega))

end List

/-- The pages that the bytes of a transfer touch. -/
def pagesTouched (addr : BitVec 64) (size : Nat) : Nat := (addr.toNat % 4096 + size + 4095) / 4096

/-- The PRP entries of a command for `size` bytes. PRP2 is a page when there are two of them, and
the address of a list of the pages behind the first one when there are more. -/
def prpEntries (store : BitVec 64 → BitVec 64) (cmd : SubmissionQueueEntry) (size : Nat) :
    List (BitVec 64) :=
  let pages := pagesTouched cmd.prp1 size
  cmd.prp1 ::
    if pages ≤ 1 then []
    else if pages = 2 then [cmd.prp2]
    else (List.range (pages - 1)).map fun k => store (listSlot cmd.prp2 k)

/-- The addresses of `n` bytes in a row. -/
def bytesFrom (addr : BitVec 64) (n : Nat) : List (BitVec 64) :=
  (List.range n).map fun i => addr + BitVec.ofNat 64 i

/-- The addresses of the `n` bytes that are moved: each entry goes up to the end of its page. -/
def transferred : List (BitVec 64) → Nat → List (BitVec 64)
  | [], _ => []
  | entry :: entries, n =>
    bytesFrom entry (min n (pageCapacity entry)) ++ transferred entries (n - pageCapacity entry)

/-- The entries describe the bytes from `addr` on, and only the first one has an offset. -/
structure Describes (store : BitVec 64 → BitVec 64) (cmd : SubmissionQueueEntry)
    (addr : BitVec 64) (size : Nat) : Prop where
  bytes : transferred (prpEntries store cmd size) size = bytesFrom addr size
  aligned : ∀ entry ∈ (prpEntries store cmd size).tail, entry.toNat % 4096 = 0

/-- The list has a frame of its own that was free, and is all that is written. -/
def OwnList (m : Machine) (setup : PrpSetup) : Prop :=
  ∃ frame, m.manager.bitmap.get frame = false ∧
    setup.cmd.prp2 = BitVec.ofNat 64 (frame * kFrameSize) ∧
    Logged.Within (fun a => ∃ i < 512, a = listSlot setup.cmd.prp2 i) m.memory setup.machine.memory

theorem pagesTouched_le_iff (addr : BitVec 64) (size k : Nat) :
    pagesTouched addr size ≤ k + 1 ↔ size ≤ pageCapacity addr + 4096 * k := by
  have hlt := Nat.mod_lt addr.toNat (show 0 < 4096 by decide)
  rw [pagesTouched, pageCapacity]
  omega

/-- Unless its number wraps around, the list has one entry for each page behind the first. -/
theorem listPages_eq {addr : BitVec 64} {size : BitVec 32}
    (h : 2 < pagesTouched addr size.toNat) (hsize : size.toNat + 4095 < 2 ^ 32) :
    listPages addr size = pagesTouched addr size.toNat - 1 := by
  have hlt := Nat.mod_lt addr.toNat (show 0 < 4096 by decide)
  have hmany := mt (pagesTouched_le_iff addr size.toNat 1).mpr (by omega)
  rw [listPages, if_neg (by omega), pageCapacity, pagesTouched]
  rw [pageCapacity] at hmany
  omega

theorem listPages_le_iff {addr : BitVec 64} {size : BitVec 32} (hsize : size.toNat + 4095 < 2 ^ 32)
    (k : Nat) (hk : 0 < k) : listPages addr size ≤ k ↔
      size.toNat ≤ pageCapacity addr + 4096 * k := by
  rw [listPages]
  split
  · omega
  · rw [Nat.mod_eq_of_lt (by omega)]
    omega

theorem bytesFrom_add (addr : BitVec 64) (n k : Nat) :
    bytesFrom addr (n + k) = bytesFrom addr n ++ bytesFrom (addr + BitVec.ofNat 64 n) k := by
  rw [bytesFrom, List.range_add, List.map_append, List.map_map, bytesFrom, bytesFrom]
  congr 1
  refine List.map_congr_left fun i _ => ?_
  rw [Function.comp_apply, BitVec.ofNat_add, BitVec.add_assoc]

theorem nextPage_aligned (addr : BitVec 64) : (nextPage addr).toNat % 4096 = 0 := by
  have hlt := Nat.mod_lt addr.toNat (show 0 < 4096 by decide)
  rw [nextPage, BitVec.toNat_add, BitVec.toNat_ofNat, pageCapacity]
  omega

theorem page_aligned {page : BitVec 64} (h : page.toNat % 4096 = 0) (k : Nat) :
    (page + 4096 * BitVec.ofNat 64 k).toNat % 4096 = 0 := by
  rw [BitVec.toNat_add, BitVec.toNat_mul, BitVec.toNat_ofNat,
    show (4096 : BitVec 64).toNat = 4096 from rfl]
  omega

/-- Pages in a row make up the bytes from the first one on. -/
theorem transferred_pages {page : BitVec 64} (h : page.toNat % 4096 = 0) {k n : Nat}
    (hn : n ≤ 4096 * k) :
    transferred ((List.range k).map fun j => page + 4096 * BitVec.ofNat 64 j) n =
      bytesFrom page n := by
  induction k generalizing page n with
  | zero =>
    obtain rfl : n = 0 := by omega
    rfl
  | succ k ih =>
    have hcapacity : pageCapacity page = 4096 := by rw [pageCapacity, h]
    have hrest := @ih (page + 4096) (by simpa using page_aligned h 1) (n - 4096) (by omega)
    have hfirst : page + 4096 * BitVec.ofNat 64 0 = page := by simp
    have htail : (List.range k).map ((fun j => page + 4096 * BitVec.ofNat 64 j) ∘ Nat.succ) =
        (List.range k).map fun j => page + 4096 + 4096 * BitVec.ofNat 64 j :=
      List.map_congr_left fun j _ => (page_succ page j).symm
    rw [List.range_succ_eq_map, List.map_cons, List.map_map, transferred, hfirst, htail, hcapacity,
      hrest]
    rcases Nat.le_total n 4096 with hle | hge
    · rw [Nat.min_eq_left hle, Nat.sub_eq_zero_of_le hle]
      exact List.append_nil _
    · rw [Nat.min_eq_right hge]
      exact (bytesFrom_add page 4096 (n - 4096)).symm.trans (by rw [Nat.add_sub_cancel' hge])

/-- The first page, and the pages behind it. -/
theorem transferred_cons_pages (addr : BitVec 64) {size k : Nat}
    (h : size ≤ pageCapacity addr + 4096 * k) :
    transferred (addr :: (List.range k).map fun j => nextPage addr + 4096 * BitVec.ofNat 64 j)
      size = bytesFrom addr size := by
  rw [transferred, transferred_pages (nextPage_aligned addr) (by omega)]
  rcases Nat.le_total size (pageCapacity addr) with hle | hge
  · rw [Nat.min_eq_left hle, Nat.sub_eq_zero_of_le hle]
    exact List.append_nil _
  · rw [Nat.min_eq_right hge, nextPage, ← bytesFrom_add, Nat.add_sub_cancel' hge]

section SetUp

variable {m : Machine} {cmd : SubmissionQueueEntry} {addr : BitVec 64} {size : BitVec 32}

/-- The entries behind the first one are the pages in a row from the next one on. -/
theorem prpEntries_setupPRPs (hsize : size.toNat + 4095 < 2 ^ 32) :
    prpEntries (setupPRPs m cmd addr size).machine.memory.store (setupPRPs m cmd addr size).cmd
        size.toNat =
      addr :: (List.range (pagesTouched addr size.toNat - 1)).map fun j =>
        nextPage addr + 4096 * BitVec.ofNat 64 j := by
  have hone := pagesTouched_le_iff addr size.toNat 0
  have htwo := pagesTouched_le_iff addr size.toNat 1
  rw [setupPRPs_eq]
  by_cases h1 : pagesTouched addr size.toNat ≤ 1
  · rw [if_pos (by omega), prpEntries, if_pos h1, Nat.sub_eq_zero_of_le h1]
    rfl
  · by_cases h2 : pagesTouched addr size.toNat = 2
    · rw [if_neg (by omega), if_pos (by omega), prpEntries]
      simp [h2]
    · rw [if_neg (by omega), if_neg (by omega), prpEntries, listPages_eq (by omega) hsize]
      simp only
      rw [if_neg h1, if_neg h2]
      congr 1
      refine List.map_congr_left fun k hk => ?_
      have hbound : 0 + (pagesTouched addr size.toNat - 1) ≤ 2 ^ 61 := by
        rw [pagesTouched]
        omega
      have hread := fillList_store (BitVec.ofNat 64 (m.manager.allocate 4096).1) (nextPage addr)
        m.memory (List.mem_range.mp hk) hbound
      rwa [Nat.zero_add] at hread

theorem describes_setupPRPs (hsize : size.toNat + 4095 < 2 ^ 32) :
    Describes (setupPRPs m cmd addr size).machine.memory.store (setupPRPs m cmd addr size).cmd
      addr size.toNat := by
  have hpages := (pagesTouched_le_iff addr size.toNat (pagesTouched addr size.toNat - 1)).mp
    (by omega)
  have hentries := @prpEntries_setupPRPs m cmd addr size hsize
  refine ⟨?_, ?_⟩
  · rw [hentries]
    exact transferred_cons_pages addr hpages
  · rw [hentries, List.tail_cons]
    intro entry hentry
    obtain ⟨j, -, rfl⟩ := List.mem_map.mp hentry
    exact page_aligned (nextPage_aligned addr) j

/-- What is written is the list. -/
theorem log_setupPRPs (m : Machine) (cmd : SubmissionQueueEntry) (addr : BitVec 64)
    (size : BitVec 32) : (setupPRPs m cmd addr size).machine.memory.log = m.memory.log ++
      (List.range (listPages addr size)).map fun k =>
        (listSlot (setupPRPs m cmd addr size).prpList k,
          nextPage addr + 4096 * BitVec.ofNat 64 k) := by
  rw [setupPRPs_eq]
  split
  · next hone => simp [listPages, show size.toNat ≤ pageCapacity addr + 4096 by omega]
  · split
    · next htwo => simp [listPages, htwo]
    · rw [fillList_log]
      simp only [Nat.zero_add]

/-- For every buffer and every size that is asked for, the entries describe the bytes of the
buffer, and the list has a frame of its own. -/
theorem setupPRPs_describes (m : Machine) (cmd : SubmissionQueueEntry) (addr : BitVec 64)
    (size : BitVec 32) (hsize : 1 ≤ size.toNat ∧ size.toNat ≤ 255 * 512)
    (havailable : (m.manager.allocate 4096).1 ≠ 0) :
    Describes (setupPRPs m cmd addr size).machine.memory.store (setupPRPs m cmd addr size).cmd
        addr size.toNat ∧
      (2 < pagesTouched addr size.toNat → OwnList m (setupPRPs m cmd addr size)) := by
  refine ⟨describes_setupPRPs (by omega), fun hmany => ?_⟩
  have hone := pagesTouched_le_iff addr size.toNat 0
  have htwo := pagesTouched_le_iff addr size.toNat 1
  have hlist : listPages addr size < 512 := by
    rw [listPages_eq hmany (by omega), pagesTouched]
    omega
  have hsetup := setupPRPs_eq m cmd addr size
  rw [if_neg (by omega), if_neg (by omega)] at hsetup
  rcases m.manager.allocate_granted 4096 with hnull | ⟨frame, hfree, hgranted⟩
  · exact absurd (congrArg Prod.fst hnull) havailable
  · refine ⟨frame, hfree frame (Nat.le_refl _) (Nat.lt_add_of_pos_right (by decide)), ?_, ?_⟩
    · rw [hsetup, hgranted]
    · rw [hsetup]
      exact fillList_within _ _ fun k _ hk => ⟨k, by omega, rfl⟩

end SetUp

/-- Two pages' worth of bytes that touch three pages. -/
theorem setupPRPs_describes_three :
    Describes (setupPRPs ⟨⟨fun _ => 0, []⟩, ⟨⟨[0x01]⟩, 0x8000⟩⟩ {} 0x6008 8192).machine.memory.store
        (setupPRPs ⟨⟨fun _ => 0, []⟩, ⟨⟨[0x01]⟩, 0x8000⟩⟩ {} 0x6008 8192).cmd 0x6008 8192 ∧
      (2 < pagesTouched 0x6008 8192 → OwnList ⟨⟨fun _ => 0, []⟩, ⟨⟨[0x01]⟩, 0x8000⟩⟩
        (setupPRPs ⟨⟨fun _ => 0, []⟩, ⟨⟨[0x01]⟩, 0x8000⟩⟩ {} 0x6008 8192)) :=
  setupPRPs_describes _ {} 0x6008 8192 (by decide) (by decide)

end Sylphia.Nvme
