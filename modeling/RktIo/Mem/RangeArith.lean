import RktIo.Mem.FirstFit

/-!
# The address and length arithmetic of the allocator

`in_mmap_range` compares `addr + size`, a sum that wraps, with the last managed page, and
`DIV_ROUNDUP` makes no page at all of a length above `2^64 - 4096`. For such arguments
`enclave_mmap` may report ranges that it does not manage, `enclave_munmap` may accept them, and
the loop of `bitmap_count_set_bits` may not end, since its end test can lie behind the end of the
bitmap, where the search sticks.
-/

namespace RktIo.Mem

open WordBits

def MmapSafe (m : Mman) (addr length : Nat) (mmapFixed : Bool) : Prop :=
  ∃ ret m', enclaveMmap m addr length mmapFixed = some (ret, m')
    ∧ ∀ p, ret = .ok p → pagesOf p length ⊆ managedPages m ∧ pagesOf p length ⊆ reserved m'

def MunmapSafe (m : Mman) (addr length : Nat) : Prop :=
  ∃ ret m', enclaveMunmap m addr length = some (ret, m')
    ∧ (ret = .ok () → m.mmapBase ≤ addr ∧ addr + length ≤ m.mmapEnd + 4096)

def MmapArgsRight (m : Mman) (addr length : Nat) (mmapFixed : Bool) : Prop :=
  if mmapFixed then RangeTestRight m addr length
  else length ≤ 2 ^ 64 - 4096 ∧ (RangeTestRight m addr length ∨ HintCounted m addr length)

/-! ## Lengths that wrap -/

variable {length addr : Nat} {m : Mman}

theorem not_subset_managed_of_lt (hm : m.Wf) {p : Nat} (hlen : 2 ^ 64 - 4096 < length) :
    ¬ pagesOf p length ⊆ managedPages m := by
  intro hman
  have hfirst : p / 4096 ∈ managedPages m := by
    apply hman
    simp only [pagesOf, Set.mem_ofPred_eq]
    omega
  have hlast : p / 4096 + 2 ^ 51 ∈ managedPages m := by
    apply hman
    simp only [pagesOf, Set.mem_ofPred_eq]
    omega
  have hpages := hm.pages_lt
  simp only [managedPages, Set.mem_ofPred_eq] at hfirst hlast
  omega

theorem divRoundup_eq_zero (hlen : 2 ^ 64 - 4096 < length) (hmax : length < 2 ^ 64) :
    divRoundup length pageSize = 0 := by
  unfold divRoundup pageSize
  rw [u64]
  omega

theorem bitmapSet_zero (map : List Word) (index : Nat) :
    bitmapSet map (cInt index) (cInt 0) = some map := by
  have hmod := Int.tmod_lt_of_pos (cInt index) (show (0 : Int) < 64 by decide)
  have hnone : ¬ ((0 : Int) - (64 - (cInt index).tmod 64) ≥ 0) := by omega
  show bitmapUpdate (fun old mask => old ||| mask) map (cInt index) 0 = some map
  unfold bitmapUpdate
  show bitmapWalk _ _ (0 + 1) map _ 0 _ _ = some map
  rw [bitmapWalk, if_neg hnone, if_neg (by decide)]

theorem mmapSearch_zero (m : Mman) : ∃ p map, mmapSearch m 0 = some (.ok p, map) := by
  have hle : findNextZeroBit m.mmapBitmap m.mmapNumPages 0 ≤ m.mmapNumPages :=
    findNext_zero_le (~~~ ·) m.mmapBitmap m.mmapNumPages
  have hfind : bitmapFindNextZeroArea m.mmapBitmap m.mmapNumPages 0 0
      = some (findNextZeroBit m.mmapBitmap m.mmapNumPages 0) := by
    set index := findNextZeroBit m.mmapBitmap m.mmapNumPages 0 with hindex
    have hsame : findNextBit m.mmapBitmap index index = index := by
      unfold findNextBit findNext
      rw [if_pos (Nat.le_refl _)]
    unfold bitmapFindNextZeroArea findNextZeroAreaLoop
    simp only [← hindex, Nat.add_zero, hsame, lt_irrefl, if_false]
    rw [if_neg (by omega)]
  unfold mmapSearch
  simp only [hfind, Option.bind_eq_bind, Option.bind_some, Nat.add_zero]
  rw [if_neg (by omega), bitmapSet_zero]
  exact ⟨_, _, rfl⟩

theorem mmapPlaceAt_hint (m : Mman) (addr length pages : Nat) :
    mmapPlaceAt m addr length pages false = none
      ∨ ∃ p map, mmapPlaceAt m addr length pages false = some (.ok p, map) := by
  unfold mmapPlaceAt
  simp only [Bool.false_eq_true, if_false, Option.bind_eq_bind]
  split
  · cases bitmapCountSetBits m.mmapBitmap m.mmapNumPages (addrRangeToIndex m addr pages) pages with
    | none => exact Or.inl rfl
    | some count =>
      rw [Option.bind_some]
      split
      · rcases bind_ok_cases (bitmapSet m.mmapBitmap (cInt (addrRangeToIndex m addr pages))
            (cInt pages)) addr with hnone | ⟨map, hsome⟩
        · exact Or.inl hnone
        · exact Or.inr ⟨addr, map, hsome⟩
      · exact Or.inr ⟨_, _, rfl⟩
  · exact Or.inr ⟨_, _, rfl⟩

/-- **A length that wraps to no pages** is never refused without `MAP_FIXED`. -/
theorem enclaveMmap_zero_pages (haddr : addr % 4096 = 0) (hpos : 0 < length)
    (hzero : divRoundup length pageSize = 0) :
    enclaveMmap m addr length false = none
      ∨ ∃ p m', enclaveMmap m addr length false = some (.ok p, m') := by
  have hguard : ¬ (addr % pageSize ≠ 0 ∨ length = 0) := by simp [pageSize, haddr]; omega
  unfold enclaveMmap
  simp only [if_neg hguard, Option.bind_eq_bind, hzero]
  rcases mmapPlaceAt_hint m addr length 0 with hnone | ⟨p, map, hplace⟩
  · left
    rw [hnone]
    rfl
  · right
    rw [hplace]
    cases p with
    | zero =>
      obtain ⟨p, map', hsearch⟩ := mmapSearch_zero { m with mmapBitmap := map }
      simp only [Option.bind_some, hsearch]
      exact ⟨p, _, rfl⟩
    | succ p => exact ⟨_, _, rfl⟩

/-! ## The calls -/

theorem mmapSafe_of_rangeTestRight (hm : m.Wf) (mmapFixed : Bool) (hlen : length ≤ 2 ^ 64 - 4096)
    (hright : RangeTestRight m addr length) : MmapSafe m addr length mmapFixed := by
  obtain ⟨⟨ret, m'⟩, hexec, hr⟩ := enclaveMmap_of_rangeTestRight hm mmapFixed hlen hright
  refine ⟨ret, m', hexec, ?_⟩
  intro p hp
  cases hr with
  | failed e => cases hp
  | done q used map htakes _ _ =>
    cases hp
    refine ⟨htakes.managed, ?_⟩
    show pagesOf p length ⊆ reservedIn m map
    rw [htakes.reserved_eq]
    exact Set.subset_union_right

theorem mmapSafe_of_counted (hm : m.Wf) (haddr : addr % 4096 = 0) (hpos : 0 < length)
    (hlen : length ≤ 2 ^ 64 - 4096) (hcount : HintCounted m addr length) :
    MmapSafe m addr length false := by
  obtain ⟨ret, m', hexec, hret⟩ :=
    firstFit_of_undecided hm haddr hpos hlen (mmapPlaceAt_of_counted hcount)
  refine ⟨ret, m', hexec, ?_⟩
  rintro p rfl
  obtain ⟨hrange, hres, -⟩ := hret
  refine ⟨hrange.managed, ?_⟩
  rw [hres]
  exact Set.subset_union_right

theorem not_mmapSafe_of_wrong (hm : m.Wf) {mmapFixed : Bool} (haddr : addr % 4096 = 0)
    (hpos : 0 < length) (hwrong : ¬ RangeTestRight m addr length)
    (hcount : mmapFixed = true ∨ ¬ HintCounted m addr length) :
    ¬ MmapSafe m addr length mmapFixed := by
  rintro ⟨ret, m', hexec, hsafe⟩
  obtain ⟨haccept, hhigh⟩ := Classical.not_imp.mp hwrong
  rcases enclaveMmap_accepted hm haddr hpos haccept hcount with hnone | ⟨m'', hok⟩
  · rw [hnone] at hexec
    cases hexec
  · rw [hok] at hexec
    cases hexec
    exact hhigh (pagesOf_bound hm haddr hpos (hsafe addr rfl).1)

theorem length_le_of_rangeTestRight (hm : m.Wf) (haccept : inMmapRange m addr length = true)
    (hright : RangeTestRight m addr length) : length ≤ 2 ^ 64 - 4096 := by
  have hhi := hright haccept
  have hlo := base_le_of_inMmapRange haccept
  have hend := hm.end_eq
  have hpos := hm.base_pos
  have hal := hm.base_aligned
  have hwrap := hm.no_wrap
  have hpages := hm.pages_pos
  omega

theorem mmapSafe_iff (hm : m.Wf) (mmapFixed : Bool) (haddr : addr % 4096 = 0) (hpos : 0 < length)
    (hmax : length < 2 ^ 64) :
    MmapSafe m addr length mmapFixed ↔ MmapArgsRight m addr length mmapFixed := by
  cases mmapFixed with
  | true =>
    show MmapSafe m addr length true ↔ RangeTestRight m addr length
    constructor
    · intro hsafe
      by_contra hwrong
      exact not_mmapSafe_of_wrong hm haddr hpos hwrong (Or.inl rfl) hsafe
    · intro hright
      cases haccept : inMmapRange m addr length with
      | true =>
        exact mmapSafe_of_rangeTestRight hm true (length_le_of_rangeTestRight hm haccept hright)
          hright
      | false =>
        have hguard : ¬ (addr % pageSize ≠ 0 ∨ length = 0) := by simp [pageSize, haddr]; omega
        refine ⟨.error .ENOMEM, m, ?_, fun p hp => by cases hp⟩
        simp [enclaveMmap, if_neg hguard, mmapPlaceAt, haccept]
  | false =>
    show MmapSafe m addr length false
      ↔ length ≤ 2 ^ 64 - 4096 ∧ (RangeTestRight m addr length ∨ HintCounted m addr length)
    constructor
    · intro hsafe
      have hlen : length ≤ 2 ^ 64 - 4096 := by
        by_contra hlong
        obtain ⟨ret, m', hexec, hret⟩ := hsafe
        rcases enclaveMmap_zero_pages (m := m) haddr hpos
          (divRoundup_eq_zero (by omega) hmax) with hnone | ⟨p, m'', hok⟩
        · rw [hnone] at hexec
          cases hexec
        · rw [hok] at hexec
          cases hexec
          exact not_subset_managed_of_lt hm (by omega) (hret p rfl).1
      refine ⟨hlen, ?_⟩
      by_contra hnot
      obtain ⟨hwrong, hcount⟩ := not_or.mp hnot
      exact not_mmapSafe_of_wrong hm haddr hpos hwrong (Or.inr hcount) hsafe
    · rintro ⟨hlen, hright | hcount⟩
      · exact mmapSafe_of_rangeTestRight hm false hlen hright
      · exact mmapSafe_of_counted hm haddr hpos hlen hcount

theorem munmapSafe_iff (hm : m.Wf) (haddr : addr % 4096 = 0) (hpos : 0 < length) :
    MunmapSafe m addr length ↔ RangeTestRight m addr length := by
  constructor
  · rintro ⟨ret, m', hexec, hret⟩ haccept
    -- behind the range test there is no refusal any more
    have hok : ret = .ok () := by
      have hguard : ¬ (addr % pageSize ≠ 0 ∨ length = 0 ∨ (!inMmapRange m addr length) = true) := by
        simp [pageSize, haddr, haccept]
        omega
      unfold enclaveMunmap at hexec
      simp only [if_neg hguard] at hexec
      obtain ⟨count, _, hexec⟩ := Option.bind_eq_some_iff.mp hexec
      obtain ⟨map, _, hexec⟩ := Option.bind_eq_some_iff.mp hexec
      cases hexec
      rfl
    exact (hret hok).2
  · intro hright
    cases haccept : inMmapRange m addr length with
    | true =>
      have hlo := base_le_of_inMmapRange haccept
      obtain ⟨used, map, hmun, _⟩ := enclaveMunmap_of_inMmapRange hm haddr hpos
        (length_le_of_rangeTestRight hm haccept hright) hlo (hright haccept) haccept
      exact ⟨_, _, hmun, fun _ => ⟨hlo, hright haccept⟩⟩
    | false =>
      refine ⟨.error .EINVAL, m, ?_, fun h => by cases h⟩
      simp [enclaveMunmap, haccept]

/-- **The arithmetic is safe exactly where the range test is right.** In every state that any
calls on any heap can reach, for every page-aligned address and every length from 1 to
`2^64 - 1`. -/
theorem range_arithmetic_safe_iff (h : Heap) (raw : Nat → Word) (mem : Nat → UInt8)
    (mmapFiles : Nat) (calls : List Call) (m₀ m : Mman)
    (hinit : enclaveMmanInit raw mem h.base h.numPages h.topdown mmapFiles = some m₀)
    (hrun : runCalls m₀ calls = some m) (addr length : Nat) (haddr : addr % 4096 = 0)
    (hpos : 0 < length) (hmax : length < 2 ^ 64) :
    (∀ mmapFixed, MmapSafe m addr length mmapFixed ↔ MmapArgsRight m addr length mmapFixed)
      ∧ (MunmapSafe m addr length ↔ RangeTestRight m addr length) := by
  obtain ⟨m₁, hinit₁, hwf₁, _⟩ := enclaveMmanInit_spec h raw mem mmapFiles
  rw [hinit] at hinit₁
  cases hinit₁
  have hwf := runCalls_wf calls hwf₁ hrun
  exact ⟨fun mmapFixed => mmapSafe_iff hwf mmapFixed haddr hpos hmax,
    munmapSafe_iff hwf haddr hpos⟩

/-- On three pages, a request of one page and its release. -/
theorem range_arithmetic_safe_iff_onePage :
    ∃ m₀, enclaveMmanInit (fun _ => 0) (fun _ => 0) threePageHeap.base threePageHeap.numPages
        threePageHeap.topdown 0 = some m₀
      ∧ MmapSafe m₀ 8192 4096 true ∧ MunmapSafe m₀ 8192 4096 := by
  obtain ⟨m₀, hinit, -⟩ := enclaveMmanInit_spec threePageHeap (fun _ => 0) (fun _ => 0) 0
  obtain ⟨hmmap, hmunmap⟩ := range_arithmetic_safe_iff threePageHeap (fun _ => 0) (fun _ => 0) 0 []
    m₀ m₀ hinit rfl 8192 4096 (by decide) (by decide) (by omega)
  have hright : RangeTestRight m₀ 8192 4096 := rangeTestRight_of_lt m₀ (by omega)
  exact ⟨m₀, hinit, (hmmap true).mpr hright, hmunmap.mpr hright⟩

theorem wrappedRelease_diverges :
    ((enclaveMmanInit (fun _ => 0) (fun _ => 0) threePageHeap.base threePageHeap.numPages false 0).map
      (fun m => (enclaveMunmap m 8192 (2 ^ 64 - 8192)).isSome)) = some false := by
  decide +kernel

/-- **A range that ends at address 0.** On three pages allocated top-down the request of
`2^64 - 8192` bytes at the first managed page succeeds, and so does its release; bottom-up the
release does not return. -/
theorem wrapped_range_accepted :
    (∃ m₀ m₁ m₂, enclaveMmanInit (fun _ => 0) (fun _ => 0) threePageHeap.base
        threePageHeap.numPages true 0 = some m₀
      ∧ enclaveMmap m₀ 8192 (2 ^ 64 - 8192) false = some (.ok 8192, m₁)
      ∧ ¬ pagesOf 8192 (2 ^ 64 - 8192) ⊆ managedPages m₀
      ∧ enclaveMunmap m₀ 8192 (2 ^ 64 - 8192) = some (.ok (), m₂)
      ∧ ¬ 8192 + (2 ^ 64 - 8192) ≤ m₀.mmapEnd + 4096
      ∧ ¬ MmapSafe m₀ 8192 (2 ^ 64 - 8192) false ∧ ¬ MunmapSafe m₀ 8192 (2 ^ 64 - 8192))
    ∧ ∃ m₀, enclaveMmanInit (fun _ => 0) (fun _ => 0) threePageHeap.base threePageHeap.numPages
        false 0 = some m₀
      ∧ enclaveMunmap m₀ 8192 (2 ^ 64 - 8192) = none := by
  constructor
  · obtain ⟨m₀, hinit, hwf, -⟩ := enclaveMmanInit_spec threePageHeap (fun _ => 0) (fun _ => 0) 0
    have heval := wrappedRequest_eval
    rw [hinit, Option.bind_some] at heval
    obtain ⟨⟨ret, m₁⟩, hmmap, heval⟩ := Option.bind_eq_some_iff.mp heval
    obtain ⟨⟨status, m₂⟩, hmunmap, heval⟩ := Option.map_eq_some_iff.mp heval
    simp only [Prod.mk.injEq] at heval
    obtain ⟨hend, rfl, rfl⟩ := heval
    have hman : ¬ pagesOf 8192 (2 ^ 64 - 8192) ⊆ managedPages m₀ := by
      intro hman
      have := pagesOf_bound hwf (by decide) (by omega) hman
      omega
    have hhigh : ¬ 8192 + (2 ^ 64 - 8192) ≤ m₀.mmapEnd + 4096 := by omega
    refine ⟨m₀, m₁, m₂, hinit, hmmap, hman, hmunmap, hhigh, ?_, ?_⟩
    · rintro ⟨ret, m', hexec, hsafe⟩
      rw [hmmap] at hexec
      cases hexec
      exact hman (hsafe 8192 rfl).1
    · rintro ⟨ret, m', hexec, hsafe⟩
      rw [hmunmap] at hexec
      cases hexec
      exact hhigh (hsafe rfl).2
  · obtain ⟨m₀, hinit, hnone⟩ := Option.map_eq_some_iff.mp wrappedRelease_diverges
    exact ⟨m₀, hinit, Option.isSome_eq_false_iff.mp hnone |> Option.isNone_iff_eq_none.mp⟩

end RktIo.Mem
