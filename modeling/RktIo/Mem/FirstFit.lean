import RktIo.Mem.Accounting

/-!
# First fit

`enclave_mmap` without `MAP_FIXED` first looks whether the hint can be used, and then takes
the first free run of the bitmap. The run is the one with the least index whatever the bitmap
holds, and the search fails only if there is none.

The way to the search can be blocked: a hint whose end wraps around the address space passes
the range test, and the loop that counts its reserved pages does not end, or finds none.
-/

namespace RktIo.Mem

open WordBits

/-! ## The search loop -/

/-- **The search finds the least free run.** The answer is the start of a run if it leaves
room for one, and no run starts before it. Induction on the fuel; the runs that are left all
start at `start` or later. -/
theorem findNextZeroAreaLoop_least (map : List Word) {size nr : Nat} (hnr : 0 < nr) :
    ∀ fuel start, size < fuel + start → start ≤ size →
      (∀ j, j + nr ≤ size → FreeRun (bitAt map) j nr → start ≤ j) →
      ∃ r, findNextZeroAreaLoop map size nr fuel start = some r
        ∧ (r + nr ≤ size → FreeRun (bitAt map) r nr)
        ∧ ∀ j, j + nr ≤ size → FreeRun (bitAt map) j nr → r ≤ j := by
  intro fuel
  induction fuel with
  | zero => intro start hfuel hstart; omega
  | succ fuel ih =>
    intro start hfuel hstart hleft
    unfold findNextZeroAreaLoop
    simp only
    have hzero := findNextZeroBit_isNext map size start
    set index := findNextZeroBit map size start with hindex
    have hset := findNextBit_isNext map (index + nr) index
    have hbehind : ∀ j, j + nr ≤ size → FreeRun (bitAt map) j nr → index ≤ j := by
      intro j hj hrun
      exact hrun.next_le hzero hnr (hleft j hj hrun) (by omega)
    split
    · -- the candidate does not fit, and neither does a run behind it
      refine ⟨index + nr, rfl, by omega, ?_⟩
      intro j hj hrun
      have := hbehind j hj hrun
      omega
    · rename_i hroom
      split
      · rename_i hi
        have hle := hset.start_le hi
        have hstart' : start ≤ index := by
          rcases hzero.le with h | h
          · exact h
          · omega
        refine ih _ (by omega) (by omega) ?_
        intro j hj hrun
        exact hrun.lt_of_set (hbehind j hj hrun) hi (hset.hit hi)
      · rename_i hi
        refine ⟨index, rfl, ?_, hbehind⟩
        intro _ i hlo hhi
        exact hset.none (by omega) i hlo hhi

/-! ## Free ranges -/

structure FreeRange (m : Mman) (p length : Nat) : Prop where
  aligned : p % 4096 = 0
  managed : pagesOf p length ⊆ managedPages m
  free : Disjoint (pagesOf p length) (reserved m)

variable {length addr : Nat} {m : Mman}

theorem FreeRange.exists_run (hm : m.Wf) {p : Nat} (hpos : 0 < length) (h : FreeRange m p length) :
    ∃ j, Spans m j ((length + 4095) / 4096) p
      ∧ FreeRun (bitAt m.mmapBitmap) j ((length + 4095) / 4096) := by
  have hbound := pagesOf_bound hm h.aligned hpos h.managed
  have hfirst : p / 4096 ∈ managedPages m := by
    apply h.managed
    simp only [pagesOf, Set.mem_ofPred_eq]
    omega
  have hlo : m.mmapBase ≤ p := by
    have hbal := hm.base_aligned
    have hal := h.aligned
    simp only [managedPages, Set.mem_ofPred_eq] at hfirst
    omega
  have hspan := addrRangeToIndex_spans hm h.aligned hpos hlo hbound
  refine ⟨_, hspan, ?_⟩
  intro i hilo hihi
  have hroom := hspan.room
  obtain ⟨q, hq, rfl⟩ := exists_pageIndex hm (show i < m.mmapNumPages by omega)
  have hpage : q ∈ pagesOf p length := (hspan.mem_iff q).mpr ⟨hq, hilo, hihi⟩
  have hfree := Set.disjoint_left.mp h.free hpage
  simpa [reserved, reservedIn, hq] using hfree

theorem Spans.addr_le (hm : m.Wf) {i j pages p q : Nat} (hpages : 0 < pages)
    (hp : Spans m i pages p) (hq : Spans m j pages q) (hpal : p % 4096 = 0) (hqal : q % 4096 = 0)
    (hij : i ≤ j) : if m.mmapTopdown then q ≤ p else p ≤ q := by
  have hend := hm.end_eq
  have hbal := hm.base_aligned
  have hppos := hm.pages_pos
  -- the first and the last page of a range have the extreme indices
  have hpf := (hp.mem_iff (p / 4096)).mp (by omega)
  have hpl := (hp.mem_iff (p / 4096 + (pages - 1))).mp (by omega)
  have hqf := (hq.mem_iff (q / 4096)).mp (by omega)
  have hql := (hq.mem_iff (q / 4096 + (pages - 1))).mp (by omega)
  simp only [managedPages, Set.mem_ofPred_eq, pageIndex] at hpf hpl hqf hql
  cases htop : m.mmapTopdown with
  | true =>
    simp only [htop, if_true] at hpf hpl hqf hql ⊢
    omega
  | false =>
    simp only [htop, Bool.false_eq_true, if_false] at hpf hpl hqf hql ⊢
    omega

/-! ## The search -/

/-- `enclave_mmap` behaves as a complete first fit: it returns, it fails with `ENOMEM` if no
range is free, and otherwise it reserves the free range with the least index. -/
def FirstFit (m : Mman) (addr length : Nat) : Prop :=
  ∃ ret m', enclaveMmap m addr length false = some (ret, m') ∧
    match ret with
    | .error e => e = .ENOMEM ∧ m' = m ∧ ∀ p, ¬ FreeRange m p length
    | .ok p =>
      FreeRange m p length ∧ reserved m' = reserved m ∪ pagesOf p length
        ∧ (∃ index, Spans m index ((length + 4095) / 4096) p
          ∧ ∀ j, j + (length + 4095) / 4096 ≤ m.mmapNumPages →
            FreeRun (bitAt m.mmapBitmap) j ((length + 4095) / 4096) → index ≤ j)
        ∧ ∀ q, FreeRange m q length → if m.mmapTopdown then q ≤ p else p ≤ q

theorem firstFit_of_undecided (hm : m.Wf) (haddr : addr % 4096 = 0) (hpos : 0 < length)
    (hlen : length ≤ 2 ^ 64 - 4096)
    (hplace : mmapPlaceAt m addr length (divRoundup length pageSize) false
      = some (.ok 0, m.mmapBitmap)) : FirstFit m addr length := by
  have hguard : ¬ (addr % pageSize ≠ 0 ∨ length = 0) := by simp [pageSize, haddr]; omega
  have hpages : 0 < (length + 4095) / 4096 := by omega
  have hfuel : m.mmapNumPages < m.mmapNumPages + 1 + 0 := by omega
  obtain ⟨index, hfind, hfree, hleast⟩ :=
    findNextZeroAreaLoop_least m.mmapBitmap hpages _ 0 hfuel (by omega) (by simp)
  rw [divRoundup_pageSize hlen] at hplace
  unfold FirstFit enclaveMmap mmapSearch bitmapFindNextZeroArea
  simp only [divRoundup_pageSize hlen, if_neg hguard, hplace, hfind, Option.bind_eq_bind,
    Option.bind_some]
  by_cases hroom : index + (length + 4095) / 4096 > m.mmapNumPages
  · rw [if_pos hroom]
    refine ⟨.error .ENOMEM, m, rfl, rfl, rfl, ?_⟩
    intro p hp
    obtain ⟨j, hspan, hrun⟩ := hp.exists_run hm hpos
    have := hleast j hspan.room hrun
    have := hspan.room
    omega
  · rw [if_neg hroom]
    obtain ⟨hal, hbase, hspan⟩ := indexRangeToBaseAddr_spans hm hpages (Nat.le_of_not_lt hroom)
    obtain ⟨map, hset, htakes⟩ := bitmapSet_takes hm hal hbase hspan
    have hrange : FreeRange m (indexRangeToBaseAddr m index ((length + 4095) / 4096)) length :=
      ⟨hal, htakes.managed, hspan.disjoint_reserved (hfree (by omega))⟩
    rw [hset]
    refine ⟨.ok _, _, rfl, hrange, htakes.reserved_eq, ⟨index, hspan, hleast⟩, ?_⟩
    intro q hq
    obtain ⟨j, hspanq, hrun⟩ := hq.exists_run hm hpos
    exact hspan.addr_le hm hpages hspanq hal hq.aligned (hleast j hspanq.room hrun)

/-! ## Hints -/

def HintCounted (m : Mman) (addr length : Nat) : Prop :=
  ∃ count, 0 < count ∧ bitmapCountSetBits m.mmapBitmap m.mmapNumPages
    (addrRangeToIndex m addr (divRoundup length pageSize)) (divRoundup length pageSize)
      = some count

structure UsableHint (m : Mman) (addr length : Nat) : Prop where
  accepted : inMmapRange m addr length = true
  range : FreeRange m addr length

theorem mmapPlaceAt_of_counted (h : HintCounted m addr length) :
    mmapPlaceAt m addr length (divRoundup length pageSize) false = some (.ok 0, m.mmapBitmap) := by
  obtain ⟨count, hpos, hcount⟩ := h
  unfold mmapPlaceAt
  simp only [Bool.false_eq_true, if_false, hcount, Option.bind_eq_bind, Option.bind_some]
  rw [if_neg (show ¬ count = 0 by omega)]
  split <;> rfl

theorem mmapPlaceAt_of_refused {pages : Nat} (h : inMmapRange m addr length = false) :
    mmapPlaceAt m addr length pages false = some (.ok 0, m.mmapBitmap) := by
  simp [mmapPlaceAt, h]

theorem hintCounted_of_managed (hm : m.Wf) (haddr : addr % 4096 = 0) (hpos : 0 < length)
    (hlen : length ≤ 2 ^ 64 - 4096) (haccept : inMmapRange m addr length = true)
    (hhi : addr + length ≤ m.mmapEnd + 4096) (hhint : ¬ UsableHint m addr length) :
    HintCounted m addr length := by
  have hspan := addrRangeToIndex_spans hm haddr hpos (base_le_of_inMmapRange haccept) hhi
  have hcount := bitmapCountSetBits_eq m.mmapBitmap hm.pages_lt hspan.room
  rw [← divRoundup_pageSize hlen] at hcount
  refine ⟨_, ?_, hcount⟩
  rw [divRoundup_pageSize hlen]
  by_contra hzero
  have hfree := setCount_eq_zero.mp (Nat.eq_zero_of_not_pos hzero)
  exact hhint ⟨haccept, haddr, hspan.subset_managed, hspan.disjoint_reserved hfree⟩

theorem bind_ok_cases (stored : Option (List Word)) (addr : Nat) :
    (stored.bind (fun map => some ((.ok addr : Except Errno Nat), map))) = none
      ∨ ∃ map, (stored.bind (fun map => some ((.ok addr : Except Errno Nat), map)))
        = some (.ok addr, map) := by
  cases stored with
  | none => exact Or.inl rfl
  | some map => exact Or.inr ⟨map, rfl⟩

theorem mmapPlaceAt_accepted (hm : m.Wf) {mmapFixed : Bool}
    (haccept : inMmapRange m addr length = true)
    (hcount : mmapFixed = true ∨ ¬ HintCounted m addr length) :
    mmapPlaceAt m addr length (divRoundup length pageSize) mmapFixed = none
      ∨ ∃ map, mmapPlaceAt m addr length (divRoundup length pageSize) mmapFixed
        = some (.ok addr, map) := by
  have hne : addr ≠ 0 := by
    have := base_le_of_inMmapRange haccept
    have := hm.base_pos
    omega
  unfold mmapPlaceAt
  cases mmapFixed with
  | true =>
    simp only [haccept, Bool.not_true, Bool.false_eq_true, if_true, if_false, Option.bind_eq_bind]
    exact bind_ok_cases _ addr
  | false =>
    simp only [haccept, hne, Bool.false_eq_true, ne_eq, not_false_eq_true, and_self, if_true,
      if_false, Option.bind_eq_bind]
    cases hc : bitmapCountSetBits m.mmapBitmap m.mmapNumPages
        (addrRangeToIndex m addr (divRoundup length pageSize)) (divRoundup length pageSize) with
    | none => exact Or.inl rfl
    | some count =>
      have hzero : count = 0 := by
        by_contra hpos
        exact hcount.resolve_left (by decide) ⟨count, by omega, hc⟩
      rw [Option.bind_some, if_pos hzero]
      exact bind_ok_cases _ addr

/-- **A range that the range test accepts** is returned, or the call does not return, unless the
range is a hint with a reserved page in it. -/
theorem enclaveMmap_accepted (hm : m.Wf) {mmapFixed : Bool} (haddr : addr % 4096 = 0)
    (hpos : 0 < length) (haccept : inMmapRange m addr length = true)
    (hcount : mmapFixed = true ∨ ¬ HintCounted m addr length) :
    enclaveMmap m addr length mmapFixed = none
      ∨ ∃ m', enclaveMmap m addr length mmapFixed = some (.ok addr, m') := by
  have hguard : ¬ (addr % pageSize ≠ 0 ∨ length = 0) := by simp [pageSize, haddr]; omega
  have hne : addr ≠ 0 := by
    have := base_le_of_inMmapRange haccept
    have := hm.base_pos
    omega
  obtain ⟨n, rfl⟩ := Nat.exists_eq_succ_of_ne_zero hne
  unfold enclaveMmap
  simp only [if_neg hguard, Option.bind_eq_bind]
  rcases mmapPlaceAt_accepted hm haccept hcount with hplace | ⟨map, hplace⟩
  · left
    rw [hplace]
    rfl
  · right
    rw [hplace]
    exact ⟨_, rfl⟩

theorem not_firstFit_of_wrong (hm : m.Wf) (haddr : addr % 4096 = 0) (hpos : 0 < length)
    (hwrong : ¬ RangeTestRight m addr length) (hcount : ¬ HintCounted m addr length) :
    ¬ FirstFit m addr length := by
  rintro ⟨ret, m', hexec, hret⟩
  obtain ⟨haccept, hhigh⟩ := Classical.not_imp.mp hwrong
  rcases enclaveMmap_accepted hm haddr hpos haccept (Or.inr hcount) with hnone | ⟨m'', hok⟩
  · rw [hnone] at hexec
    cases hexec
  · rw [hok] at hexec
    cases hexec
    exact hhigh (pagesOf_bound hm hret.1.aligned hpos hret.1.managed)

theorem not_firstFit_of_misaligned (haddr : addr % 4096 ≠ 0) : ¬ FirstFit m addr length := by
  rintro ⟨ret, m', hexec, hret⟩
  rw [enclaveMmap, if_pos (.inl haddr)] at hexec
  cases hexec
  exact absurd hret.1 (by decide)

/-- **First fit is complete, unless a hint wraps around.** For every bitmap and both directions:
when the hint cannot be used, `enclave_mmap` is a complete first fit exactly if the hint is
page-aligned, and the range test is right about it or it is dropped because a reserved page was
counted in it. -/
theorem first_fit_iff (h : Heap) (raw : Nat → Word) (mem : Nat → UInt8) (mmapFiles : Nat)
    (m₀ : Mman) (hinit : enclaveMmanInit raw mem h.base h.numPages h.topdown mmapFiles = some m₀)
    (map : List Word) (hmap : map.length = m₀.mmapBitmap.length) (used addr length : Nat)
    (hpos : 0 < length) (hlen : length ≤ 2 ^ 64 - 4096)
    (hhint : ¬ UsableHint { m₀ with mmapBitmap := map, usedPages := used } addr length) :
    FirstFit { m₀ with mmapBitmap := map, usedPages := used } addr length
      ↔ addr % 4096 = 0
        ∧ (RangeTestRight { m₀ with mmapBitmap := map, usedPages := used } addr length
          ∨ HintCounted { m₀ with mmapBitmap := map, usedPages := used } addr length) := by
  obtain ⟨m₁, hinit₁, hwf₁, _⟩ := enclaveMmanInit_spec h raw mem mmapFiles
  rw [hinit] at hinit₁
  cases hinit₁
  have hwf := hwf₁.of_update hmap used m₀.mem
  set m : Mman := { m₀ with mmapBitmap := map, usedPages := used } with hm
  constructor
  · intro hfit
    have haddr : addr % 4096 = 0 := by
      by_contra haddr
      exact not_firstFit_of_misaligned haddr hfit
    refine ⟨haddr, ?_⟩
    by_contra hnot
    obtain ⟨hwrong, hcount⟩ := not_or.mp hnot
    exact not_firstFit_of_wrong hwf haddr hpos hwrong hcount hfit
  · rintro ⟨haddr, hright | hcount⟩
    · cases haccept : inMmapRange m addr length with
      | false => exact firstFit_of_undecided hwf haddr hpos hlen (mmapPlaceAt_of_refused haccept)
      | true =>
        have hcount := hintCounted_of_managed hwf haddr hpos hlen haccept (hright haccept) hhint
        exact firstFit_of_undecided hwf haddr hpos hlen (mmapPlaceAt_of_counted hcount)
    · exact firstFit_of_undecided hwf haddr hpos hlen (mmapPlaceAt_of_counted hcount)

theorem not_usableHint_null (hm : m.Wf) (length : Nat) : ¬ UsableHint m 0 length := by
  intro hhint
  have := base_le_of_inMmapRange hhint.accepted
  have := hm.base_pos
  omega

/-- Three pages, two of them managed and one of these reserved: a request without a hint. -/
theorem first_fit_iff_secondPage :
    ∃ m₀, enclaveMmanInit (fun _ => 0) (fun _ => 0) threePageHeap.base threePageHeap.numPages
        threePageHeap.topdown 0 = some m₀
      ∧ FirstFit { m₀ with mmapBitmap := m₀.mmapBitmap.set 0 1#64, usedPages := 1 } 0 4096 := by
  obtain ⟨m₀, hinit, hwf, _⟩ := enclaveMmanInit_spec threePageHeap (fun _ => 0) (fun _ => 0) 0
  have hlen : (m₀.mmapBitmap.set 0 1#64).length = m₀.mmapBitmap.length := List.length_set
  refine ⟨m₀, hinit, ?_⟩
  apply (first_fit_iff threePageHeap (fun _ => 0) (fun _ => 0) 0 m₀ hinit _ hlen 1 0 4096
    (by decide) (by omega) (not_usableHint_null (hwf.of_update hlen 1 m₀.mem) 4096)).mpr
  exact ⟨rfl, Or.inl (rangeTestRight_of_lt _ (by omega))⟩

theorem wrappedRequest_eval :
    ((enclaveMmanInit (fun _ => 0) (fun _ => 0) threePageHeap.base threePageHeap.numPages
        threePageHeap.topdown 0).bind (fun m =>
      (enclaveMmap m 8192 (2 ^ 64 - 8192) false).bind (fun r =>
        (enclaveMunmap m 8192 (2 ^ 64 - 8192)).map (fun r' => (m.mmapEnd, r.1, r'.1)))))
      = some (12288, .ok 8192, .ok ()) := by
  decide +kernel

/-- **A wrapped hint.** The request is answered with the hint although no such range exists. -/
theorem wrapped_hint_taken :
    ∃ m₀ m', enclaveMmanInit (fun _ => 0) (fun _ => 0) threePageHeap.base threePageHeap.numPages
        threePageHeap.topdown 0 = some m₀
      ∧ (∀ p, ¬ FreeRange m₀ p (2 ^ 64 - 8192)) ∧ ¬ UsableHint m₀ 8192 (2 ^ 64 - 8192)
      ∧ enclaveMmap m₀ 8192 (2 ^ 64 - 8192) false = some (.ok 8192, m')
      ∧ ¬ FirstFit m₀ 8192 (2 ^ 64 - 8192) := by
  obtain ⟨m₀, hinit, hwf, _⟩ := enclaveMmanInit_spec threePageHeap (fun _ => 0) (fun _ => 0) 0
  have heval := wrappedRequest_eval
  rw [hinit, Option.bind_some] at heval
  obtain ⟨⟨ret, m'⟩, hmmap, heval⟩ := Option.bind_eq_some_iff.mp heval
  obtain ⟨⟨status, m''⟩, -, heval⟩ := Option.map_eq_some_iff.mp heval
  simp only [Prod.mk.injEq] at heval
  obtain ⟨hend, rfl, -⟩ := heval
  have hnone : ∀ p, ¬ FreeRange m₀ p (2 ^ 64 - 8192) := by
    intro p hp
    have := pagesOf_bound hwf hp.aligned (by omega) hp.managed
    omega
  refine ⟨m₀, m', hinit, hnone, fun hhint => hnone _ hhint.range, hmmap, ?_⟩
  rintro ⟨ret, m₂, hexec, hret⟩
  rw [hmmap] at hexec
  cases hexec
  exact hnone _ hret.1

end RktIo.Mem
