import RktIo.Mem.PageSet

/-!
# Every run of allocator calls refines the page set

`enclave_mman_init` followed by any sequence of `enclave_mmap`, `enclave_munmap` and
`enclave_mremap` calls. `CallSpec` is the specification, stated on the set of reserved pages
alone; `exec_refines_pageSet` is the simulation step and
`enclaveMman_refines_pageSet` its closure under runs.
-/

namespace RktIo.Mem

open WordBits

/-! ## Heaps -/

/-- A heap `enclave_mman_init` can be called with: page-aligned, below `2^31` pages, inside
the address space, and large enough to leave a page to manage. -/
structure Heap where
  base : Nat
  numPages : Nat
  topdown : Bool
  aligned : base % 4096 = 0
  small : numPages < 2 ^ 31
  noWrap : base + 4096 * numPages ≤ 2 ^ 64
  leavesPage : (numPages - (if base = 0 then 1 else 0) + 32767) / 32768
    < numPages - (if base = 0 then 1 else 0)

def Heap.firstPage (h : Heap) : Nat := h.base / 4096 + (if h.base = 0 then 1 else 0)

def Heap.bitmapPages (h : Heap) : Nat :=
  (h.numPages - (if h.base = 0 then 1 else 0) + 32767) / 32768

def Heap.managed (h : Heap) : Set Nat :=
  {q | h.firstPage + h.bitmapPages ≤ q ∧ q < h.base / 4096 + h.numPages}

/-- **`enclave_mman_init`** sets up the geometry of the heap with no page reserved, whatever
the bitmap pages held before. -/
theorem enclaveMmanInit_spec (h : Heap) (raw : Nat → Word) (mem : Nat → UInt8)
    (mmapFiles : Nat) :
    ∃ m, enclaveMmanInit raw mem h.base h.numPages h.topdown mmapFiles = some m ∧ m.Wf
      ∧ m.mmapTopdown = h.topdown ∧ managedPages m = h.managed ∧ reserved m = ∅ := by
  obtain ⟨base, numPages, topdown, hal, hsmall, hwrap, hleaves⟩ := h
  -- the two assignments for a heap at address 0, as one pair of numbers
  obtain ⟨b, n, hpair, hb, hn, hbal, hbpos⟩ : ∃ b n,
      (if base = 0 then (u64 ((base : Int) + (pageSize : Nat)), u64 ((numPages : Int) - 1))
        else (base, numPages)) = (b, n)
      ∧ b = base + 4096 * (if base = 0 then 1 else 0)
      ∧ n = numPages - (if base = 0 then 1 else 0) ∧ b % 4096 = 0 ∧ 0 < b := by
    by_cases hz : base = 0
    · refine ⟨4096, numPages - 1, ?_, by simp [hz], by simp [hz], by omega, by omega⟩
      rw [if_pos hz, hz, u64_eq (n := 4096) (by simp [pageSize]) (by omega),
        u64_eq (n := numPages - 1) (by rw [if_pos hz] at hleaves; omega) (by omega)]
    · exact ⟨base, numPages, if_neg hz, by simp [hz], by simp [hz], hal, by omega⟩
  have hn2 : 1 < n := by omega
  have hnlt : n < 2 ^ 31 := by omega
  have htop : b + 4096 * n ≤ 2 ^ 64 := by split at hb <;> omega
  have hreq : divRoundup n (8 * pageSize) = (n + 32767) / 32768 := by
    unfold divRoundup pageSize
    rw [u64_eq (n := n + 32767) (by omega) (by omega)]
  set k := (n + 32767) / 32768 with hk
  have hnum : u64 ((n : Int) - (k : Int)) = n - k := u64_eq (by omega) (by omega)
  have hbase : u64 ((b : Int) + (k : Int) * (pageSize : Nat)) = b + 4096 * k :=
    u64_eq (by simp only [pageSize]; omega) (by omega)
  have hend : u64 (((b + 4096 * k : Nat) : Int) + (((n - k : Nat) : Int) - 1) * (pageSize : Nat))
      = b + 4096 * k + 4096 * (n - k - 1) :=
    u64_eq (by simp only [pageSize]; omega) (by omega)
  have hlen : ((List.range (pageSize / 8 * k)).map raw).length = 512 * k := by
    simp [pageSize]
  obtain ⟨map, hclear, hmap, hfill⟩ :=
    bitmapClear_fills ((List.range (pageSize / 8 * k)).map raw)
      (show 0 + (n - k) ≤ 64 * ((List.range (pageSize / 8 * k)).map raw).length from by omega)
  let m : Mman :=
    { mmapBitmap := map, mmapBase := b + 4096 * k, mmapEnd := b + 4096 * k + 4096 * (n - k - 1)
      mmapNumPages := n - k, usedPages := 0, mmapFiles := mmapFiles, mmapTopdown := topdown
      mem := mem }
  have hwf : m.Wf := by
    refine ⟨?_, ?_, ?_, ?_, rfl, ?_, ?_⟩ <;> simp only [m] <;> omega
  refine ⟨m, ?_, hwf, rfl, ?_, ?_⟩
  · unfold enclaveMmanInit
    simp only [hpair, hreq, hnum, hbase, hend, cInt_natCast (show n - k < 2 ^ 31 by omega)]
    rw [show (0 : Int) = ((0 : Nat) : Int) from rfl, hclear]
    rfl
  · ext q
    simp only [managedPages, Heap.managed, Heap.firstPage, Heap.bitmapPages, Set.mem_ofPred_eq, m,
      ← hn, ← hk]
    by_cases hz : base = 0
    · simp only [hz, if_true] at hb hn ⊢
      omega
    · simp only [hz, if_false] at hb hn ⊢
      omega
  · ext q
    simp only [reserved, reservedIn, Set.mem_ofPred_eq, Set.mem_empty_iff_false, iff_false,
      not_and, Bool.not_eq_true]
    intro hq
    apply hfill.inside (by omega)
    simp only [managedPages, Set.mem_ofPred_eq, m] at hq
    simp only [pageIndex, m]
    split <;> omega

/-! ## Calls and runs -/

inductive Call where
  | mmap (addr length : Nat) (mmapFixed : Bool)
  | munmap (addr length : Nat)
  | mremap (oldAddr oldLength newAddr newLength : Nat) (mremapFixed : Bool)
  deriving Repr, DecidableEq

inductive Reply where
  | addr (ret : Except Errno Nat)
  | status (ret : Except Errno Unit)

def Call.exec (m : Mman) : Call → Option (Reply × Mman)
  | .mmap addr length fixed => (enclaveMmap m addr length fixed).map (fun r => (.addr r.1, r.2))
  | .munmap addr length => (enclaveMunmap m addr length).map (fun r => (.status r.1, r.2))
  | .mremap old oldLen new newLen fixed =>
    (enclaveMremap m old oldLen new newLen fixed).map (fun r => (.addr r.1, r.2))

def runCalls : Mman → List Call → Option Mman
  | m, [] => some m
  | m, c :: cs => (c.exec m).bind (fun r => runCalls r.2 cs)

def RangeOk (addr length : Nat) : Prop := length ≤ 2 ^ 64 - 4096 ∧ addr + length < 2 ^ 64

def Call.Admissible : Call → Prop
  | .mmap addr length _ => RangeOk addr length
  | .munmap addr length => RangeOk addr length
  | .mremap old oldLen new newLen _ => RangeOk old oldLen ∧ RangeOk new newLen

/-- **The page-set specification of a call** from the state `m` with result `reply` and
reserved pages `after`.

* `mmap` without `MAP_FIXED`: aligned, managed, unreserved pages, exactly these added;
* `mmap` with `MAP_FIXED`: the requested address, exactly the requested pages added;
* `munmap` returning 0: exactly the pages of the range removed;
* `mremap`: a fresh range added and the old one removed, the latter by `enclave_munmap`,
  whose refusal is ignored;
* a failed call changes nothing. -/
def CallSpec (m : Mman) (after : Set Nat) : Call → Reply → Prop
  | .mmap _ length false, .addr (.ok p) =>
    p % 4096 = 0 ∧ pagesOf p length ⊆ managedPages m ∧ Disjoint (pagesOf p length) (reserved m)
      ∧ after = reserved m ∪ pagesOf p length
  | .mmap addr length true, .addr (.ok p) => p = addr ∧ after = reserved m ∪ pagesOf addr length
  | .munmap addr length, .status (.ok ()) => after = reserved m \ pagesOf addr length
  | .mremap old oldLen _ newLen _, .addr (.ok p) =>
    p % 4096 = 0 ∧ pagesOf p newLen ⊆ managedPages m ∧ Disjoint (pagesOf p newLen) (reserved m)
      ∧ after =
        if MunmapAccepts m old oldLen then (reserved m ∪ pagesOf p newLen) \ pagesOf old oldLen
        else reserved m ∪ pagesOf p newLen
  | .mmap _ _ _, .addr (.error _) => after = reserved m
  | .munmap _ _, .status (.error _) => after = reserved m
  | .mremap _ _ _ _ _, .addr (.error _) => after = reserved m
  | _, _ => False

structure SameGeometry (m m' : Mman) : Prop where
  base : m'.mmapBase = m.mmapBase
  last : m'.mmapEnd = m.mmapEnd
  pages : m'.mmapNumPages = m.mmapNumPages
  topdown : m'.mmapTopdown = m.mmapTopdown
  words : m'.mmapBitmap.length = m.mmapBitmap.length

theorem SameGeometry.refl (m : Mman) : SameGeometry m m := ⟨rfl, rfl, rfl, rfl, rfl⟩

theorem SameGeometry.trans {m₁ m₂ m₃ : Mman} (h : SameGeometry m₁ m₂) (h' : SameGeometry m₂ m₃) :
    SameGeometry m₁ m₃ :=
  ⟨h'.base.trans h.base, h'.last.trans h.last, h'.pages.trans h.pages,
    h'.topdown.trans h.topdown, h'.words.trans h.words⟩

theorem SameGeometry.wf {m m' : Mman} (h : SameGeometry m m') (hm : m.Wf) : m'.Wf := by
  obtain ⟨hb, he, hp, _, hw⟩ := h
  refine ⟨?_, ?_, ?_, ?_, ?_, ?_, ?_⟩
  · rw [hb]; exact hm.base_aligned
  · rw [hb]; exact hm.base_pos
  · rw [hp]; exact hm.pages_pos
  · rw [hp]; exact hm.pages_lt
  · rw [he, hb, hp]; exact hm.end_eq
  · rw [hb, hp]; exact hm.no_wrap
  · rw [hp, hw]; exact hm.room

theorem SameGeometry.managedPages_eq {m m' : Mman} (h : SameGeometry m m') :
    managedPages m' = managedPages m := by
  unfold managedPages
  rw [h.base, h.pages]

/-! ## The simulation -/

/-- **One call refines the page set.** From a well-formed state an admissible call returns,
keeps the geometry and meets its specification. -/
theorem exec_refines_pageSet {m : Mman} (hm : m.Wf) (c : Call) (hc : c.Admissible) :
    ∃ reply m', c.exec m = some (reply, m') ∧ SameGeometry m m'
      ∧ CallSpec m (reserved m') c reply := by
  cases c with
  | mmap addr length fixed =>
    obtain ⟨r, hexec, hr⟩ := enclaveMmap_spec hm fixed hc.1 hc.2
    simp only [Call.exec, hexec, Option.map_some]
    cases hr with
    | failed e => exact ⟨_, _, rfl, .refl m, by cases fixed <;> rfl⟩
    | done p used map htakes hfixed hfree =>
      refine ⟨_, _, rfl, ⟨rfl, rfl, rfl, rfl, htakes.length_eq⟩, ?_⟩
      cases fixed with
      | true =>
        refine ⟨hfixed rfl, ?_⟩
        rw [← hfixed rfl]
        exact htakes.reserved_eq
      | false => exact ⟨htakes.aligned, htakes.managed, hfree rfl, htakes.reserved_eq⟩
  | munmap addr length =>
    obtain ⟨r, hexec, hr⟩ := enclaveMunmap_spec hm hc.1 hc.2
    simp only [Call.exec, hexec, Option.map_some]
    cases hr with
    | refused _ => exact ⟨_, _, rfl, .refl m, rfl⟩
    | done used map _ hlen hres => exact ⟨_, _, rfl, ⟨rfl, rfl, rfl, rfl, hlen⟩, hres⟩
  | mremap old oldLen new newLen fixed =>
    obtain ⟨r, hexec, hr⟩ := enclaveMremap_spec hm fixed hc.1.1 hc.1.2 hc.2.1 hc.2.2
    simp only [Call.exec, hexec, Option.map_some]
    cases hr with
    | failed e => exact ⟨_, _, rfl, .refl m, rfl⟩
    | done p used map mem hlen hal hman hfree hres =>
      exact ⟨_, _, rfl, ⟨rfl, rfl, rfl, rfl, hlen⟩, hal, hman, hfree, hres⟩

theorem runCalls_sameGeometry (cs : List Call) :
    ∀ {m : Mman}, m.Wf → (∀ c ∈ cs, c.Admissible) →
      ∃ m', runCalls m cs = some m' ∧ SameGeometry m m' := by
  induction cs with
  | nil => intro m _ _; exact ⟨m, rfl, .refl m⟩
  | cons c cs ih =>
    intro m hm hcs
    obtain ⟨reply, m₁, hexec, hgeo, _⟩ := exec_refines_pageSet hm c (hcs c (by simp))
    obtain ⟨m', hrun, hgeo'⟩ := ih (hgeo.wf hm) (fun c' hc' => hcs c' (by simp [hc']))
    exact ⟨m', by rw [runCalls, hexec]; exact hrun, hgeo.trans hgeo'⟩

/-- **The allocator refines a set of reserved pages.** On every heap, in both allocation
directions and after every sequence of admissible calls, every admissible next call returns
and changes the reserved pages exactly as `CallSpec` says; the managed region stays what the
bitmap left of the heap, and initially no page is reserved. -/
theorem enclaveMman_refines_pageSet (h : Heap) (raw : Nat → Word) (mem : Nat → UInt8)
    (mmapFiles : Nat) (cs : List Call) (hcs : ∀ c ∈ cs, c.Admissible) :
    ∃ m₀ m, enclaveMmanInit raw mem h.base h.numPages h.topdown mmapFiles = some m₀
      ∧ reserved m₀ = ∅ ∧ runCalls m₀ cs = some m ∧ managedPages m = h.managed
      ∧ ∀ c : Call, c.Admissible →
          ∃ reply m', c.exec m = some (reply, m') ∧ CallSpec m (reserved m') c reply := by
  obtain ⟨m₀, hinit, hwf, _, hman, hempty⟩ := enclaveMmanInit_spec h raw mem mmapFiles
  obtain ⟨m, hrun, hgeo⟩ := runCalls_sameGeometry cs hwf hcs
  refine ⟨m₀, m, hinit, hempty, hrun, ?_, ?_⟩
  · rw [hgeo.managedPages_eq, hman]
  · intro c hc
    obtain ⟨reply, m', hexec, _, hspec⟩ := exec_refines_pageSet (hgeo.wf hwf) c hc
    exact ⟨reply, m', hexec, hspec⟩

def threePageHeap : Heap where
  base := 4096
  numPages := 3
  topdown := true
  aligned := by decide
  small := by decide
  noWrap := by decide
  leavesPage := by decide

theorem enclaveMman_refines_pageSet_threePages :
    (∀ c ∈ [Call.mmap 0 5000 false, .mmap 8192 4096 true], c.Admissible)
      ∧ ∃ m₀ m, enclaveMmanInit (fun _ => 0) (fun _ => 0) 4096 3 true 0 = some m₀
        ∧ reserved m₀ = ∅
        ∧ runCalls m₀ [.mmap 0 5000 false, .mmap 8192 4096 true] = some m
        ∧ managedPages m = threePageHeap.managed
        ∧ ∀ c : Call, c.Admissible →
          ∃ reply m', c.exec m = some (reply, m') ∧ CallSpec m (reserved m') c reply := by
  have hcs : ∀ c ∈ [Call.mmap 0 5000 false, .mmap 8192 4096 true], c.Admissible := by
    simp [Call.Admissible, RangeOk]
  exact ⟨hcs, enclaveMman_refines_pageSet threePageHeap (fun _ => 0) (fun _ => 0) 0 _ hcs⟩

end RktIo.Mem
