import RktIo.Mem.EnclaveMem

/-!
# The allocator as a set of reserved pages

What `enclave_mem.c` is for: it manages a set of pages, and every call changes that set by
whole ranges. Pages are page *numbers* (`address / 4096`); `pagesOf addr length` are the
pages of a range and `reserved m` the pages whose bit is set.

## The architecture

* **`Spans m index pages p`** — the bitmap indices `[index, index + pages)` are exactly the
  pages `[p / 4096, p / 4096 + pages)`. Both directions of the address arithmetic
  (`addr_range_to_index` for a given range, `index_range_to_base_addr` for a found one)
  establish it, in both allocation directions; everything after that is direction-free.
* **`reservedIn_of_fills_true`** / **`reservedIn_of_fills_false`** — a filled range of
  indices is a changed set of pages.
-/

namespace RktIo.Mem

open WordBits

/-! ## Pages -/

def pagesOf (addr length : Nat) : Set Nat :=
  {q | addr / 4096 ≤ q ∧ q < addr / 4096 + (length + 4095) / 4096}

def managedPages (m : Mman) : Set Nat :=
  {q | m.mmapBase / 4096 ≤ q ∧ q < m.mmapBase / 4096 + m.mmapNumPages}

def pageIndex (m : Mman) (q : Nat) : Nat :=
  if m.mmapTopdown then m.mmapEnd / 4096 - q else q - m.mmapBase / 4096

def reservedIn (m : Mman) (map : List Word) : Set Nat :=
  {q | q ∈ managedPages m ∧ bitAt map (pageIndex m q) = true}

def reserved (m : Mman) : Set Nat := reservedIn m m.mmapBitmap

/-! ## The geometry -/

/-- What `enclave_mman_init` establishes and every call keeps: a page-aligned region above
page 0 that does not wrap, with a bit for every page. `mmap_end` is the *last page*. -/
structure Mman.Wf (m : Mman) : Prop where
  base_aligned : m.mmapBase % 4096 = 0
  base_pos : 0 < m.mmapBase
  pages_pos : 0 < m.mmapNumPages
  pages_lt : m.mmapNumPages < 2 ^ 31
  end_eq : m.mmapEnd = m.mmapBase + 4096 * (m.mmapNumPages - 1)
  no_wrap : m.mmapBase + 4096 * m.mmapNumPages ≤ 2 ^ 64
  room : m.mmapNumPages ≤ 64 * m.mmapBitmap.length

variable {m : Mman} {map : List Word} {addr length index p : Nat}

theorem Mman.Wf.of_update (hm : m.Wf) (hlen : map.length = m.mmapBitmap.length) (used : Nat)
    (mem : Nat → UInt8) : Mman.Wf { m with mmapBitmap := map, usedPages := used, mem := mem } :=
  ⟨hm.base_aligned, hm.base_pos, hm.pages_pos, hm.pages_lt, hm.end_eq, hm.no_wrap,
    by simpa [hlen] using hm.room⟩

structure Spans (m : Mman) (index pages p : Nat) : Prop where
  room : index + pages ≤ m.mmapNumPages
  mem_iff : ∀ q, (p / 4096 ≤ q ∧ q < p / 4096 + pages) ↔
    (q ∈ managedPages m ∧ index ≤ pageIndex m q ∧ pageIndex m q < index + pages)

theorem inMmapRange_iff (m : Mman) {size : Nat} (h : addr + size < 2 ^ 64) :
    inMmapRange m addr size = true ↔ m.mmapBase ≤ addr ∧ addr + size ≤ m.mmapEnd := by
  unfold inMmapRange
  rw [u64_eq (n := addr + size) (by omega) h]
  simp

theorem addrRangeToIndex_spans (hm : m.Wf) (haddr : addr % 4096 = 0) (hpos : 0 < length)
    (hlo : m.mmapBase ≤ addr) (hhi : addr + length ≤ m.mmapEnd + 4096) :
    Spans m (addrRangeToIndex m addr ((length + 4095) / 4096)) ((length + 4095) / 4096)
      addr := by
  obtain ⟨hal, hbpos, hppos, hplt, hend, hwrap, _⟩ := hm
  unfold addrRangeToIndex addrToIndex pageSize
  cases htop : m.mmapTopdown with
  | false =>
    have hidx : u64 ((ptrdiff addr m.mmapBase).tdiv (4096 : Nat)) = (addr - m.mmapBase) / 4096 := by
      rw [ptrdiff_of_le hlo (by omega), Int.tdiv_eq_ediv_of_nonneg (by omega)]
      exact u64_eq (by omega) (by omega)
    simp only [Bool.false_eq_true, if_false, hidx]
    refine ⟨by omega, ?_⟩
    intro q
    simp only [managedPages, pageIndex, htop, Bool.false_eq_true, if_false, Set.mem_ofPred_eq]
    omega
  | true =>
    have hidx : u64 ((ptrdiff m.mmapEnd addr).tdiv (4096 : Nat)) = (m.mmapEnd - addr) / 4096 := by
      rw [ptrdiff_of_le (by omega) (by omega), Int.tdiv_eq_ediv_of_nonneg (by omega)]
      exact u64_eq (by omega) (by omega)
    have hsub : u64 ((((m.mmapEnd - addr) / 4096 : Nat) : Int)
          - (((length + 4095) / 4096 : Nat) - 1))
        = (m.mmapEnd - addr) / 4096 - ((length + 4095) / 4096 - 1) :=
      u64_eq (by omega) (by omega)
    simp only [if_true, hidx, hsub]
    refine ⟨by omega, ?_⟩
    intro q
    simp only [managedPages, pageIndex, htop, if_true, Set.mem_ofPred_eq]
    omega

theorem indexRangeToBaseAddr_spans (hm : m.Wf) {pages : Nat} (hpos : 0 < pages)
    (hroom : index + pages ≤ m.mmapNumPages) :
    indexRangeToBaseAddr m index pages % 4096 = 0
      ∧ m.mmapBase ≤ indexRangeToBaseAddr m index pages
      ∧ Spans m index pages (indexRangeToBaseAddr m index pages) := by
  obtain ⟨hal, hbpos, hppos, hplt, hend, hwrap, _⟩ := hm
  unfold indexRangeToBaseAddr indexToAddr pageSize
  cases htop : m.mmapTopdown with
  | false =>
    have haddr : u64 ((m.mmapBase : Int) + index * (4096 : Nat)) = m.mmapBase + 4096 * index :=
      u64_eq (by omega) (by omega)
    simp only [Bool.false_eq_true, if_false, haddr]
    refine ⟨by omega, by omega, hroom, ?_⟩
    intro q
    simp only [managedPages, pageIndex, htop, Bool.false_eq_true, if_false, Set.mem_ofPred_eq]
    omega
  | true =>
    have hlast : u64 ((index : Int) + ((pages : Int) - 1)) = index + (pages - 1) :=
      u64_eq (by omega) (by omega)
    have haddr : u64 ((m.mmapEnd : Int) - ((index + (pages - 1) : Nat) : Int) * (4096 : Nat))
        = m.mmapEnd - 4096 * (index + (pages - 1)) :=
      u64_eq (by omega) (by omega)
    simp only [if_true, hlast, haddr]
    refine ⟨by omega, by omega, hroom, ?_⟩
    intro q
    simp only [managedPages, pageIndex, htop, if_true, Set.mem_ofPred_eq]
    omega

/-! ## Changing the set -/

section

variable (hspan : Spans m index ((length + 4095) / 4096) p)

include hspan

theorem reservedIn_of_fills_true {map' : List Word}
    (hfill : FillsRange true (bitAt map) (bitAt map') index ((length + 4095) / 4096)) :
    reservedIn m map' = reservedIn m map ∪ pagesOf p length := by
  ext q
  have hq := hspan.mem_iff q
  simp only [reservedIn, pagesOf, Set.mem_union, Set.mem_ofPred_eq, hq, hfill (pageIndex m q)]
  by_cases hin : index ≤ pageIndex m q ∧ pageIndex m q < index + (length + 4095) / 4096
  · simp only [hin, and_self, if_true, and_true]
    tauto
  · simp only [hin, if_false, and_false, or_false]

theorem reservedIn_of_fills_false {map' : List Word}
    (hfill : FillsRange false (bitAt map) (bitAt map') index ((length + 4095) / 4096)) :
    reservedIn m map' = reservedIn m map \ pagesOf p length := by
  ext q
  have hq := hspan.mem_iff q
  simp only [reservedIn, pagesOf, Set.mem_sdiff, Set.mem_ofPred_eq, hq, hfill (pageIndex m q)]
  by_cases hin : index ≤ pageIndex m q ∧ pageIndex m q < index + (length + 4095) / 4096
  · simp only [hin, and_self, if_true, Bool.false_eq_true, and_false, and_true]
    tauto
  · simp only [hin, if_false, and_false, not_false_eq_true, and_true]

theorem Spans.subset_managed : pagesOf p length ⊆ managedPages m :=
  fun q hq => ((hspan.mem_iff q).mp hq).1

theorem Spans.disjoint_reserved (hfree : FreeRun (bitAt map) index ((length + 4095) / 4096)) :
    Disjoint (pagesOf p length) (reservedIn m map) := by
  rw [Set.disjoint_left]
  intro q hq hres
  obtain ⟨_, hlo, hhi⟩ := (hspan.mem_iff q).mp hq
  have hbit := hfree _ hlo hhi
  rw [hres.2] at hbit
  cases hbit

end

/-! ## `enclave_mmap` -/

structure Takes (m : Mman) (map : List Word) (p length : Nat) : Prop where
  length_eq : map.length = m.mmapBitmap.length
  aligned : p % 4096 = 0
  base_le : m.mmapBase ≤ p
  managed : pagesOf p length ⊆ managedPages m
  reserved_eq : reservedIn m map = reserved m ∪ pagesOf p length

theorem cInt_of_room (hm : m.Wf) {pages : Nat} (hroom : index + pages ≤ m.mmapNumPages) :
    cInt index = index ∧ cInt pages = pages := by
  have := hm.pages_lt
  exact ⟨cInt_natCast (by omega), cInt_natCast (by omega)⟩

theorem bitmapSet_takes (hm : m.Wf) (hal : p % 4096 = 0) (hbase : m.mmapBase ≤ p)
    (hspan : Spans m index ((length + 4095) / 4096) p) :
    ∃ map, bitmapSet m.mmapBitmap (cInt index) (cInt ((length + 4095) / 4096)) = some map
      ∧ Takes m map p length := by
  obtain ⟨hi, hn⟩ := cInt_of_room hm hspan.room
  rw [hi, hn]
  obtain ⟨map, hset, hlen, hfill⟩ :=
    bitmapSet_fills m.mmapBitmap (Nat.le_trans hspan.room hm.room)
  exact ⟨map, hset, hlen, hal, hbase, hspan.subset_managed, reservedIn_of_fills_true hspan hfill⟩

inductive Placed (m : Mman) (addr length : Nat) (mmapFixed : Bool) :
    Except Errno Nat × List Word → Prop where
  | refused (e : Errno) : Placed m addr length mmapFixed (.error e, m.mmapBitmap)
  | undecided (h : mmapFixed = false) : Placed m addr length mmapFixed (.ok 0, m.mmapBitmap)
  | taken (map : List Word) (hpos : addr ≠ 0) (h : Takes m map addr length)
      (hfree : mmapFixed = false → Disjoint (pagesOf addr length) (reserved m)) :
      Placed m addr length mmapFixed (.ok addr, map)

def RangeTestRight (m : Mman) (addr length : Nat) : Prop :=
  inMmapRange m addr length = true → addr + length ≤ m.mmapEnd + 4096

theorem rangeTestRight_of_lt (m : Mman) (hwrap : addr + length < 2 ^ 64) :
    RangeTestRight m addr length := by
  intro hr
  have hhi := ((inMmapRange_iff m hwrap).mp hr).2
  omega

theorem base_le_of_inMmapRange (hr : inMmapRange m addr length = true) : m.mmapBase ≤ addr := by
  unfold inMmapRange at hr
  exact of_decide_eq_true (Bool.and_eq_true_iff.mp hr).1

theorem mmapPlaceAt_spec (hm : m.Wf) (mmapFixed : Bool) (hal : addr % 4096 = 0) (hpos : 0 < length)
    (hright : RangeTestRight m addr length) :
    ∃ r, mmapPlaceAt m addr length ((length + 4095) / 4096) mmapFixed = some r
      ∧ Placed m addr length mmapFixed r := by
  have hspan (hr : inMmapRange m addr length = true) :
      addr ≠ 0 ∧ m.mmapBase ≤ addr
        ∧ Spans m (addrRangeToIndex m addr ((length + 4095) / 4096)) ((length + 4095) / 4096)
          addr := by
    have hlo := base_le_of_inMmapRange hr
    have := hm.base_pos
    exact ⟨by omega, hlo, addrRangeToIndex_spans hm hal hpos hlo (hright hr)⟩
  unfold mmapPlaceAt
  cases mmapFixed with
  | true =>
    cases hr : inMmapRange m addr length with
    | false => exact ⟨_, rfl, .refused _⟩
    | true =>
      obtain ⟨hne, hbase, hspan⟩ := hspan hr
      obtain ⟨map, hset, htakes⟩ := bitmapSet_takes hm hal hbase hspan
      refine ⟨(.ok addr, map), ?_, .taken map hne htakes (by simp)⟩
      simp [hset]
  | false =>
    simp only [Bool.false_eq_true, if_false]
    by_cases hr : addr ≠ 0 ∧ inMmapRange m addr length = true
    · rw [if_pos hr]
      obtain ⟨hne, hbase, hspan⟩ := hspan hr.2
      simp only [bitmapCountSetBits_eq m.mmapBitmap hm.pages_lt hspan.room, Option.bind_eq_bind,
        Option.bind_some]
      split
      · rename_i hzero
        obtain ⟨map, hset, htakes⟩ := bitmapSet_takes hm hal hbase hspan
        refine ⟨(.ok addr, map), by simp [hset], .taken map hne htakes ?_⟩
        intro _
        exact hspan.disjoint_reserved (setCount_eq_zero.mp hzero)
      · exact ⟨_, rfl, .undecided rfl⟩
    · rw [if_neg hr]
      exact ⟨_, rfl, .undecided rfl⟩

theorem mmapSearch_spec (hm : m.Wf) (hpos : 0 < length) :
    (∃ e, mmapSearch m ((length + 4095) / 4096) = some (.error e, m.mmapBitmap))
      ∨ ∃ p map, mmapSearch m ((length + 4095) / 4096) = some (.ok p, map)
        ∧ Takes m map p length ∧ Disjoint (pagesOf p length) (reserved m) := by
  unfold mmapSearch
  obtain ⟨index, hfind, hfree⟩ :=
    bitmapFindNextZeroArea_eq m.mmapBitmap m.mmapNumPages ((length + 4095) / 4096)
  simp only [hfind, Option.bind_eq_bind, Option.bind_some]
  split
  · exact Or.inl ⟨_, rfl⟩
  · rename_i hroom
    right
    obtain ⟨hal, hbase, hspan⟩ := indexRangeToBaseAddr_spans hm
      (show 0 < (length + 4095) / 4096 from by omega) (Nat.le_of_not_lt hroom)
    obtain ⟨map, hset, htakes⟩ := bitmapSet_takes hm hal hbase hspan
    exact ⟨_, map, by simp [hset], htakes, hspan.disjoint_reserved (hfree (by omega))⟩

/-- What `enclave_mmap` returns: a failure that changes nothing, or a range added to the
reserved pages. -/
inductive MmapResult (m : Mman) (addr length : Nat) (mmapFixed : Bool) :
    Except Errno Nat × Mman → Prop where
  | failed (e : Errno) : MmapResult m addr length mmapFixed (.error e, m)
  | done (p used : Nat) (map : List Word) (h : Takes m map p length)
      (hfixed : mmapFixed = true → p = addr)
      (hfree : mmapFixed = false → Disjoint (pagesOf p length) (reserved m)) :
      MmapResult m addr length mmapFixed
        (.ok p, { m with mmapBitmap := map, usedPages := used })

theorem enclaveMmap_of_rangeTestRight (hm : m.Wf) (mmapFixed : Bool) (hlen : length ≤ 2 ^ 64 - 4096)
    (hright : RangeTestRight m addr length) :
    ∃ r, enclaveMmap m addr length mmapFixed = some r ∧ MmapResult m addr length mmapFixed r := by
  unfold enclaveMmap
  simp only [divRoundup_pageSize hlen]
  by_cases hbad : addr % pageSize ≠ 0 ∨ length = 0
  · rw [if_pos hbad]
    exact ⟨_, rfl, .failed _⟩
  · rw [if_neg hbad]
    have hal : addr % 4096 = 0 := by simpa [pageSize] using (not_or.mp hbad).1
    have hpos : 0 < length := by omega
    obtain ⟨r, hplace, hr⟩ := mmapPlaceAt_spec hm mmapFixed hal hpos hright
    simp only [hplace, Option.bind_eq_bind, Option.bind_some]
    cases hr with
    | refused e => exact ⟨_, rfl, .failed e⟩
    | taken map hne htakes hfree =>
      obtain ⟨k, rfl⟩ := Nat.exists_eq_succ_of_ne_zero hne
      exact ⟨_, rfl, .done _ _ map htakes (fun _ => rfl) hfree⟩
    | undecided hfixed =>
      rcases mmapSearch_spec hm hpos with ⟨e, hs⟩ | ⟨p, map, hs, htakes, hfree⟩
      · exact ⟨(.error e, m), by simp [hs], .failed e⟩
      · refine ⟨_, by simp only [hs, Option.bind_some]; rfl, .done p _ map htakes ?_ (fun _ => hfree)⟩
        simp [hfixed]

theorem enclaveMmap_spec (hm : m.Wf) (mmapFixed : Bool) (hlen : length ≤ 2 ^ 64 - 4096)
    (hwrap : addr + length < 2 ^ 64) :
    ∃ r, enclaveMmap m addr length mmapFixed = some r ∧ MmapResult m addr length mmapFixed r :=
  enclaveMmap_of_rangeTestRight hm mmapFixed hlen (rangeTestRight_of_lt m hwrap)

/-! ## `enclave_munmap` and `enclave_mremap` -/

def MunmapAccepts (m : Mman) (addr length : Nat) : Prop :=
  addr % 4096 = 0 ∧ 0 < length ∧ m.mmapBase ≤ addr ∧ addr + length ≤ m.mmapEnd

instance (m : Mman) (addr length : Nat) : Decidable (MunmapAccepts m addr length) :=
  inferInstanceAs (Decidable (_ ∧ _ ∧ _ ∧ _))

/-- What `enclave_munmap` returns: a refusal that changes nothing, or the accepted range
taken out of the reserved pages. -/
inductive MunmapResult (m : Mman) (addr length : Nat) : Except Errno Unit × Mman → Prop where
  | refused (h : ¬ MunmapAccepts m addr length) : MunmapResult m addr length (.error .EINVAL, m)
  | done (used : Nat) (map : List Word) (h : MunmapAccepts m addr length)
      (hlen : map.length = m.mmapBitmap.length)
      (hres : reservedIn m map = reserved m \ pagesOf addr length) :
      MunmapResult m addr length (.ok (), { m with mmapBitmap := map, usedPages := used })

/-- **Clearing.** Once the range check of `enclave_munmap` is passed, a range inside the
managed pages is taken out of the reserved pages. -/
theorem enclaveMunmap_of_inMmapRange (hm : m.Wf) (hal : addr % 4096 = 0) (hpos : 0 < length)
    (hlen : length ≤ 2 ^ 64 - 4096) (hlo : m.mmapBase ≤ addr)
    (hhi : addr + length ≤ m.mmapEnd + 4096) (hrange : inMmapRange m addr length = true) :
    ∃ used map, enclaveMunmap m addr length
        = some (.ok (), { m with mmapBitmap := map, usedPages := used })
      ∧ map.length = m.mmapBitmap.length
      ∧ reservedIn m map = reserved m \ pagesOf addr length := by
  have hbad : ¬ (addr % pageSize ≠ 0 ∨ length = 0 ∨ (!inMmapRange m addr length) = true) := by
    simp [pageSize, hal, hrange, show length ≠ 0 from by omega]
  have hspan := addrRangeToIndex_spans hm hal hpos hlo hhi
  obtain ⟨hi, hn⟩ := cInt_of_room hm hspan.room
  obtain ⟨map, hclear, hmap, hfill⟩ :=
    bitmapClear_fills m.mmapBitmap (Nat.le_trans hspan.room hm.room)
  unfold enclaveMunmap
  simp only [divRoundup_pageSize hlen]
  rw [if_neg hbad, bitmapCountSetBits_eq m.mmapBitmap hm.pages_lt hspan.room, hi, hn, hclear]
  exact ⟨_, map, rfl, hmap, reservedIn_of_fills_false hspan hfill⟩

theorem enclaveMunmap_spec (hm : m.Wf) (hlen : length ≤ 2 ^ 64 - 4096)
    (hwrap : addr + length < 2 ^ 64) :
    ∃ r, enclaveMunmap m addr length = some r ∧ MunmapResult m addr length r := by
  have hrange := inMmapRange_iff m hwrap
  by_cases hacc : MunmapAccepts m addr length
  · obtain ⟨hal, hpos, hlo, hhi⟩ := hacc
    obtain ⟨used, map, hmun, hmap, hres⟩ :=
      enclaveMunmap_of_inMmapRange hm hal hpos hlen hlo (by omega) (hrange.mpr ⟨hlo, hhi⟩)
    exact ⟨_, hmun, .done used map ⟨hal, hpos, hlo, hhi⟩ hmap hres⟩
  · have hbad : addr % pageSize ≠ 0 ∨ length = 0 ∨ (!inMmapRange m addr length) = true := by
      by_contra hgood
      apply hacc
      simp only [not_or, Bool.not_eq_true', Bool.not_eq_false, ne_eq, not_not] at hgood
      have hr := hrange.mp hgood.2.2
      exact ⟨hgood.1, by omega, hr.1, hr.2⟩
    unfold enclaveMunmap
    simp only
    rw [if_pos hbad]
    exact ⟨_, rfl, .refused hacc⟩

/-- What `enclave_mremap` returns: a failure that changes nothing, or a fresh range added
and the old one taken out, if `enclave_munmap` accepts it. -/
inductive MremapResult (m : Mman) (oldAddr oldLength newLength : Nat) :
    Except Errno Nat × Mman → Prop where
  | failed (e : Errno) : MremapResult m oldAddr oldLength newLength (.error e, m)
  | done (p used : Nat) (map : List Word) (mem : Nat → UInt8)
      (hlen : map.length = m.mmapBitmap.length) (hal : p % 4096 = 0)
      (hman : pagesOf p newLength ⊆ managedPages m)
      (hfree : Disjoint (pagesOf p newLength) (reserved m))
      (hres : reservedIn m map =
        if MunmapAccepts m oldAddr oldLength
        then (reserved m ∪ pagesOf p newLength) \ pagesOf oldAddr oldLength
        else reserved m ∪ pagesOf p newLength) :
      MremapResult m oldAddr oldLength newLength
        (.ok p, { m with mmapBitmap := map, usedPages := used, mem := mem })

theorem enclaveMremap_spec (hm : m.Wf) {oldAddr oldLength newAddr newLength : Nat}
    (mremapFixed : Bool) (holen : oldLength ≤ 2 ^ 64 - 4096) (howrap : oldAddr + oldLength < 2 ^ 64)
    (hnlen : newLength ≤ 2 ^ 64 - 4096) (hnwrap : newAddr + newLength < 2 ^ 64) :
    ∃ r, enclaveMremap m oldAddr oldLength newAddr newLength mremapFixed = some r
      ∧ MremapResult m oldAddr oldLength newLength r := by
  unfold enclaveMremap
  cases mremapFixed with
  | true => exact ⟨_, rfl, .failed _⟩
  | false =>
    obtain ⟨r, hmmap, hr⟩ := enclaveMmap_spec hm false hnlen hnwrap
    simp only [Bool.false_eq_true, if_false, hmmap, Option.bind_eq_bind, Option.bind_some]
    cases hr with
    | failed e => exact ⟨_, rfl, .failed e⟩
    | done p used map htakes _ hfree =>
      simp only
      set copied : Mman := { m with
        mmapBitmap := map, usedPages := used,
        mem := memcpy m.mem p oldAddr
          (if oldLength > newLength then newLength else oldLength) } with hcopied
      have hwf : copied.Wf := hm.of_update htakes.length_eq _ _
      have hresc : reserved copied = reserved m ∪ pagesOf p newLength := htakes.reserved_eq
      obtain ⟨r', hmun, hr'⟩ := enclaveMunmap_spec hwf holen howrap
      rw [hmun]
      cases hr' with
      | refused hacc =>
        refine ⟨_, rfl, .done p used map copied.mem htakes.length_eq htakes.aligned htakes.managed
          (hfree rfl) ?_⟩
        rw [if_neg (show ¬ MunmapAccepts m oldAddr oldLength from hacc)]
        exact htakes.reserved_eq
      | done used' map' hacc hlen' hres' =>
        refine ⟨_, rfl, .done p used' map' copied.mem (hlen'.trans htakes.length_eq)
          htakes.aligned htakes.managed (hfree rfl) ?_⟩
        rw [if_pos (show MunmapAccepts m oldAddr oldLength from hacc), ← hresc]
        exact hres'

end RktIo.Mem
