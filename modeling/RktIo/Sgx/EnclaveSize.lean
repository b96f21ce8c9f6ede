import RktIo.Sgx.Segments

/-!
# The size of the enclave (`sgx/sgx.c`, `sgx/sgx_enclave_config.c`)

`process_pages` stores the size of the enclave in the parameters of every thread, and
`in_enclave_range` takes it for the length of the enclave in bytes. It is the number of pages.

## The architecture

* `pagesFrom` — the offsets of consecutive pages, and what it means that they all end below a
  bound;
* `threadLoop_offsets` — the pages of the threads are consecutive;
* `enclaveSizeOf_eq` — what is stored can be read back.
-/

namespace RktIo.Sgx

open Bytes List ThreadParms

/-! ## Consecutive pages -/

def pagesFrom (off n : Nat) : List Nat :=
  (List.range n).map fun i : Nat => toSize (off + pageSize * i)

theorem pagesFrom_congr {off off' : Nat} (h : toSize off = toSize off') (n : Nat) :
    pagesFrom off n = pagesFrom off' n := by
  refine map_congr_left fun i _ => ?_
  unfold toSize at *
  omega

theorem pagesFrom_add (off n m : Nat) :
    pagesFrom off (n + m) = pagesFrom off n ++ pagesFrom (off + pageSize * n) m := by
  rw [pagesFrom, range_add, map_append, map_map]
  refine congrArg (_ ++ ·) (map_congr_left fun i _ => ?_)
  simp only [Function.comp]
  congr 1
  push_cast
  ring

theorem pagesFrom_one (off : Nat) : pagesFrom off 1 = [toSize off] := by
  simp [pagesFrom]

theorem toSize_add_of_lt {a b : Nat} (h : toSize a + b < 2 ^ 64) :
    toSize (a + b : Nat) = toSize a + b := by
  unfold toSize at *
  omega

theorem pagesFrom_le {off n bound : Nat} (hbound : bound < 2 ^ 64) (hpos : 0 < n)
    (h : ∀ o ∈ pagesFrom off n, o + pageSize ≤ bound) : toSize off + pageSize * n ≤ bound := by
  induction n with
  | zero => omega
  | succ n ih =>
    rw [pagesFrom_add, pagesFrom_one, forall_mem_append, forall_mem_singleton] at h
    obtain ⟨hfirst, hlast⟩ := h
    rcases Nat.eq_zero_or_pos n with rfl | hn
    · simpa using hlast
    · have hle := ih hn hfirst
      rw [toSize_add_of_lt (by omega)] at hlast
      rw [Nat.mul_succ]
      omega

theorem repeatPage_offsets (n off : Nat) (prot : Word) (page : Page) :
    (repeatPage n off prot page).map PageCall.offset = pagesFrom off n := by
  simp [repeatPage, pagesFrom]

/-! ## The pages of the threads -/

section Threads

variable (p : ThreadParms)

def ThreadParms.pages : Nat := p.stack + p.nssa + 2

theorem threadPages_offsets (off : Nat) (buf : Nat → BitVec 8) :
    (p.threadPages off buf).1.calls.map PageCall.offset = pagesFrom off p.pages := by
  rw [pages, pagesFrom_add, pagesFrom_add, pagesFrom_add _ 1 1, pagesFrom_one,
    pagesFrom_one]
  simp only [ThreadPages.calls, threadPages, map_append, repeatPage_offsets,
    map_cons, map_nil, toSize_toSize_add]
  push_cast
  ring_nf
  simp

theorem threadLoop_offsets (n off : Nat) (buf : Nat → BitVec 8) :
    ((p.threadLoop n off buf).flatMap ThreadPages.calls).map PageCall.offset =
      pagesFrom off (n * p.pages) := by
  induction n generalizing off buf with
  | zero => simp [threadLoop, pagesFrom]
  | succ n ih =>
    rw [threadLoop, flatMap_cons, map_append, threadPages_offsets, ih,
      Nat.succ_mul, Nat.add_comm, pagesFrom_add]
    refine congrArg (_ ++ ·) (pagesFrom_congr ?_ _)
    rw [toSize_toSize, pages]
    push_cast
    rfl

theorem threadLoop_tls {n off : Nat} {buf : Nat → BitVec 8} {t : ThreadPages}
    (ht : t ∈ p.threadLoop n off buf) :
    ∃ buf' stackStart ossa tls,
      t.tls.page = toPage (storeFields buf' (p.tlsFields stackStart ossa tls)) := by
  induction n generalizing off buf with
  | zero => simp [threadLoop] at ht
  | succ n ih =>
    rcases mem_cons.mp ht with rfl | ht
    · exact ⟨buf, _, _, _, rfl⟩
    · exact ih ht

end Threads

/-! ## Fields in a buffer -/

def Field.Covers (f : Field) (x : Nat) : Prop := f.1 ≤ x ∧ x < f.1 + f.2.1

def Field.Apart (f g : Field) : Prop := f.1 + f.2.1 ≤ g.1 ∨ g.1 + g.2.1 ≤ f.1

theorem storeFields_of_notMem {fields : List Field} {x : Nat} (h : ∀ f ∈ fields, ¬ f.Covers x)
    (buf : Nat → BitVec 8) : storeFields buf fields x = buf x := by
  induction fields generalizing buf with
  | nil => rfl
  | cons f fs ih =>
    obtain ⟨hhead, htail⟩ := forall_mem_cons.mp h
    exact (ih htail _).trans (store_of_notMem hhead)

theorem load_storeFields {fields : List Field} (hapart : fields.Pairwise Field.Apart) {f : Field}
    (hf : f ∈ fields) (buf : Nat → BitVec 8) :
    load (storeFields buf fields) f.1 f.2.1 = f.2.2 % 256 ^ f.2.1 := by
  induction fields generalizing buf with
  | nil => cases hf
  | cons g gs ih =>
    obtain ⟨hhead, htail⟩ := pairwise_cons.mp hapart
    rcases mem_cons.mp hf with rfl | hf
    · have hkeep : load (storeFields (store buf f.1 f.2.1 f.2.2) gs) f.1 f.2.1 =
          load (store buf f.1 f.2.1 f.2.2) f.1 f.2.1 := by
        refine load_congr fun x hlow hhigh => storeFields_of_notMem (fun g hg hcov => ?_) _
        rcases hhead g hg with hle | hle <;> unfold Field.Covers at hcov <;> omega
      exact hkeep.trans load_store
    · exact ih htail hf _

def Page.bytes (page : Page) (x : Nat) : BitVec 8 :=
  if hx : x < pageSize then page ⟨x, hx⟩ else 0

theorem load_toPage (buf : Nat → BitVec 8) {a n : Nat} (hin : a + n ≤ pageSize) :
    load (toPage buf).bytes a n = load buf a n := by
  refine load_congr fun x _ hx => ?_
  rw [Page.bytes, dif_pos (by omega)]
  rfl

/-! ## The stored size -/

def parmsEnclaveSize : Nat := 80

def Run.enclaveSizeOf (r : Run) (t : ThreadPages) : Nat :=
  load t.tls.page.bytes (schedTcbBaseSize + r.parmsOffset + parmsEnclaveSize) 8

def Run.parmsOf (r : Run) (base : Word) (t : ThreadPages) : EnclaveParms :=
  ⟨base, BitVec.ofNat 64 (r.enclaveSizeOf t)⟩

def Run.Covered (r : Run) (base : Word) : Prop :=
  ∀ t ∈ r.threads, ∀ c ∈ r.calls, ∀ j < pageSize,
    (r.parmsOf base t).Contains (base + BitVec.ofNat 64 (c.offset + j)) ∧
    (j + 1 < pageSize →
      inEnclaveRange (r.parmsOf base t) (base + BitVec.ofNat 64 (c.offset + j)) 1)

theorem ThreadParms.tlsFields_apart (p : ThreadParms) (stackStart ossa tls : Nat) :
    (p.tlsFields stackStart ossa tls).Pairwise Field.Apart := by
  simp only [tlsFields, pairwise_cons, mem_cons, not_mem_nil, or_false,
    forall_eq_or_imp, forall_eq, Field.Apart, schedTcbBaseSize, false_imp_iff, implies_true,
    List.Pairwise.nil, and_true]
  omega

theorem load_tlsFields (p : ThreadParms)
    (hfits : schedTcbBaseSize + p.parmsOffset + enclaveParmsWritten ≤ pageSize)
    (buf : Nat → BitVec 8) {stackStart ossa tls : Nat} {f : Field}
    (hf : f ∈ p.tlsFields stackStart ossa tls) :
    load (toPage (storeFields buf (p.tlsFields stackStart ossa tls))).bytes f.1 f.2.1 =
      f.2.2 % 256 ^ f.2.1 := by
  have hin : ∀ g ∈ p.tlsFields stackStart ossa tls, g.1 + g.2.1 ≤ pageSize := by
    simp only [tlsFields, mem_cons, not_mem_nil, or_false, forall_eq_or_imp,
      forall_eq]
    unfold enclaveParmsWritten schedTcbBaseSize at *
    rw [pageSize] at *
    omega
  rw [load_toPage _ (hin f hf), load_storeFields (p.tlsFields_apart _ _ _) hf]

/-! ## Where the library ends -/

theorem lastOffset_cons (off : Nat) (h : Phdr) (hs : List Phdr) :
    lastOffset off (h :: hs) = lastOffset (toSize (h.start + pageSize * h.count)) hs := by
  rw [lastOffset, lastOffset, foldl_cons]

theorem lastOffset_cases (off : Nat) (loads : List Phdr) :
    (loads = [] ∧ lastOffset off loads = off) ∨
      ∃ h ∈ loads, lastOffset off loads = toSize (h.start + pageSize * h.count) := by
  induction loads generalizing off with
  | nil => exact .inl ⟨rfl, foldl_nil⟩
  | cons h hs ih =>
    right
    rw [lastOffset_cons]
    rcases ih (toSize (h.start + pageSize * h.count)) with ⟨rfl, heq⟩ | ⟨h', hh', heq⟩
    · exact ⟨h, mem_cons_self, heq⟩
    · exact ⟨h', mem_cons_of_mem h hh', heq⟩

theorem toSize_mod_pageSize {x : Nat} (h : x % pageSize = 0) : toSize x % pageSize = 0 := by
  unfold toSize
  rw [pageSize] at *
  omega

theorem Phdr.count_le (h : Phdr) :
    pageSize * h.count ≤ h.skew + h.filesz.toNat + 2 ^ 31 + 2 * pageSize := by
  have hskew := h.skew_lt
  have hzero : ∀ x, pageSize * zeroPages (toInt32 x) ≤ 2 ^ 31 + pageSize := by
    intro x
    by_cases hneg : toInt32 x ≤ 0
    · rw [zeroPages_of_nonpos hneg]
      omega
    · have hlt := (toInt32_range x).2
      obtain ⟨n, hn⟩ := Int.eq_ofNat_of_zero_le (not_le.mp hneg).le
      rw [hn] at hlt ⊢
      rw [zeroPages_natCast, pageSize]
      omega
  have hfile : pageSize * h.fileCount ≤ h.skew + h.filesz.toNat + pageSize := by
    unfold Phdr.fileCount Phdr.fullCount
    rw [pageSize]
    split <;> omega
  rw [Phdr.count, Nat.mul_add]
  have := hzero (toSize (h.memsz.toNat - h.filesz.toNat - h.memRead))
  omega

theorem lastOffset_lt {off : Nat} {loads : List Phdr} (hne : loads ≠ [])
    (hlib : ∀ h ∈ loads, h.vaddr.toNat + h.filesz.toNat < 2 ^ 42) :
    lastOffset off loads < 2 ^ 43 := by
  rcases lastOffset_cases off loads with ⟨hnil, -⟩ | ⟨h, hh, heq⟩
  · exact absurd hnil hne
  · have hcount := h.count_le
    have hlt := hlib h hh
    have hv := h.vaddr_eq
    rw [← h.start_eq] at hv
    have hle : h.start + pageSize * h.count < 2 ^ 43 := by
      rw [pageSize] at *
      omega
    rw [heq]
    unfold toSize
    omega

theorem lastOffset_mod {off : Nat} (hoff : off % pageSize = 0) (loads : List Phdr) :
    lastOffset off loads % pageSize = 0 := by
  rcases lastOffset_cases off loads with ⟨-, heq⟩ | ⟨h, -, heq⟩
  · rw [heq, hoff]
  · rw [heq, h.start_eq]
    refine toSize_mod_pageSize (x := pageSize * h.firstPage + pageSize * h.count) ?_
    rw [← Nat.mul_add, Nat.mul_mod_right]

/-! ## The range -/

theorem lt_of_contains {p : EnclaveParms} {o : Nat}
    (h : p.Contains (p.base + BitVec.ofNat 64 o)) (ho : o < 2 ^ 64) : o < p.enclaveSize.toNat := by
  obtain ⟨hlow, hhigh⟩ := h
  have hbase := p.base.isLt
  rw [BitVec.toNat_add, BitVec.toNat_ofNat] at hlow hhigh
  omega

theorem libBase_mod (heap : Nat) (mapHeapFirst : Bool) :
    libBase heap mapHeapFirst % pageSize = 0 := by
  unfold libBase toSize
  rw [pageSize]
  split <;> omega

theorem Run.Covered.page_le {run : Run} {base : Word} (hcov : run.Covered base) {t : ThreadPages}
    (ht : t ∈ run.threads) {c : PageCall} (hc : c ∈ run.calls) (hlt : c.offset < 2 ^ 64)
    (hmod : c.offset % pageSize = 0) : c.offset + pageSize ≤ run.enclaveSizeOf t := by
  have hlast : c.offset + (pageSize - 1) < 2 ^ 64 := by
    rw [pageSize] at *
    omega
  have hin := lt_of_contains (p := run.parmsOf base t)
    (hcov t ht c hc (pageSize - 1) (by decide)).1 hlast
  have hsize : (BitVec.ofNat 64 (run.enclaveSizeOf t)).toNat ≤ run.enclaveSizeOf t := by
    rw [BitVec.toNat_ofNat]
    exact Nat.mod_le _ _
  have hstored : c.offset + (pageSize - 1) < (BitVec.ofNat 64 (run.enclaveSizeOf t)).toNat := hin
  rw [pageSize] at *
  omega

theorem pages_exceed_count {heap len codeEnd size libbase : Nat} (first : Bool) (hlen : 0 < len)
    (hmod : codeEnd % pageSize = 0) (hcode : codeEnd < 2 ^ 43 ∨ codeEnd = libbase)
    (hlib : libbase = libBase heap first)
    (hsize : size = toSize (1 + heap + len + toInt32 (codeEnd / pageSize : Nat)))
    (hfirst : first = true → heap = 0 ∨ toSize pageSize + pageSize * heap ≤ size)
    (hlast : toSize (libbase + codeEnd : Nat) + pageSize * ((if first then 0 else heap) + len) ≤
      size) :
    False := by
  rw [toInt32_eq] at hsize
  unfold libBase at hlib
  unfold toSize at *
  rw [pageSize] at *
  cases first with
  | false =>
    simp only [Bool.false_eq_true, if_false] at hlib hlast
    split at hsize <;> omega
  | true =>
    have hheap := hfirst rfl
    simp only [if_true] at hlib hlast
    split at hsize <;> omega

theorem Run.heapFirst_subset (run : Run) : run.heapFirst ⊆ run.calls := by
  intro c hc
  simp only [Run.calls, mem_cons, mem_append]
  tauto

theorem Run.back_subset (run : Run) :
    run.heapLast ++ run.threads.flatMap ThreadPages.calls ⊆ run.calls := by
  intro c hc
  rw [mem_append] at hc
  simp only [Run.calls, mem_cons, mem_append]
  tauto

section Covers

variable {img : ElfImage} {heap stack : Nat} {tcsp : Int} {nssa : Nat} {mapHeapFirst : Bool}
  {run : Run}

section

variable (hrun : processPages img heap stack tcsp nssa mapHeapFirst = some run)

include hrun

theorem processPages_layout {codeEnd : Nat}
    (hcode : codeEnd = lastOffset (libBase heap mapHeapFirst) img.loads) :
    (∀ t ∈ run.threads, run.enclaveSizeOf t =
      getEnclaveSize heap stack tcsp 1 nssa (toInt32 (codeEnd / pageSize : Nat)) 1) ∧
    (run.threads = [] ↔ tcsp ≤ 0) ∧
    run.heapFirst.map PageCall.offset = pagesFrom pageSize (if mapHeapFirst then heap else 0) ∧
    (run.heapLast ++ run.threads.flatMap ThreadPages.calls).map PageCall.offset =
      pagesFrom (libBase heap mapHeapFirst + codeEnd)
        ((if mapHeapFirst then 0 else heap) + tcsp.toNat * (stack + nssa + 2)) := by
  obtain ⟨codeEnd', i, entry, hloop, hfits, hoff, -, hfirst, hlast, hthreads⟩ :=
    processPages_eq_some hrun
  obtain ⟨-, -, hend⟩ := segmentLoop_eq_some hloop
  have hsame : codeEnd' = codeEnd := hend.trans hcode.symm
  subst hsame
  refine ⟨?_, ?_, ?_, ?_⟩
  · intro t ht
    have hpos : ¬ tcsp ≤ 0 := by
      intro hneg
      rw [hthreads, Int.toNat_of_nonpos hneg] at ht
      cases ht
    rw [hthreads] at ht
    obtain ⟨buf, stackStart, ossa, tls, hpage⟩ := threadLoop_tls _ ht
    rw [Run.enclaveSizeOf, hpage, hoff]
    obtain ⟨p, hp⟩ : ∃ p, p = threadParms img heap stack tcsp nssa mapHeapFirst codeEnd' i entry :=
      ⟨_, rfl⟩
    have hmem : (schedTcbBaseSize + 8 * i + parmsEnclaveSize, 8, p.enclaveSize) ∈
        p.tlsFields stackStart ossa tls := by
      rw [hp]
      simp [tlsFields, threadParms, parmsEnclaveSize]
    rw [← hp]
    refine (load_tlsFields p ?_ buf hmem).trans ?_
    · rw [hp]
      exact hfits.resolve_left hpos
    · rw [hp]
      exact Nat.mod_eq_of_lt (toSize_lt _)
  · rw [hthreads]
    cases hn : tcsp.toNat with
    | zero => exact iff_of_true rfl (by omega)
    | succ n => exact iff_of_false (cons_ne_nil _ _) (by omega)
  · rw [hfirst, repeatPage_offsets]
  · rw [map_append, hlast, hthreads, repeatPage_offsets, threadLoop_offsets, pagesFrom_add]
    refine congrArg (_ ++ ·) (pagesFrom_congr ?_ _)
    rw [toSize_toSize]
    norm_cast

theorem processPages_offset_lt : ∀ c ∈ run.calls, c.offset < 2 ^ 64 := by
  have hpages : ∀ {calls : List PageCall} {off n : Nat},
      calls.map PageCall.offset = pagesFrom off n → ∀ c ∈ calls, c.offset < 2 ^ 64 := by
    intro calls off n hoff c hc
    have hmem : c.offset ∈ pagesFrom off n := hoff ▸ mem_map_of_mem hc
    obtain ⟨k, -, hk⟩ := mem_map.mp hmem
    exact hk ▸ toSize_lt _
  obtain ⟨-, -, hfirst, hlast⟩ := processPages_layout hrun rfl
  obtain ⟨codeEnd, -, -, hloop, -, -, hnull, -⟩ := processPages_eq_some hrun
  obtain ⟨-, hsegs, -⟩ := segmentLoop_eq_some hloop
  have hback := hpages hlast
  intro c hc
  rw [Run.calls, mem_cons, append_assoc, mem_append, mem_append] at hc
  rcases hc with rfl | (hc | hc) | hc
  · rw [hnull]
    decide
  · exact hpages hfirst c hc
  · -- a page of a segment
    obtain ⟨x, hx, hc⟩ := mem_flatMap.mp hc
    rw [hsegs] at hx
    obtain ⟨y, -, rfl⟩ := mem_map.mp hx
    simp only [Phdr.calls, mem_map] at hc
    obtain ⟨k, -, rfl⟩ := hc
    simp only [Phdr.call, toSize_lt]
  · exact hback c hc

end

theorem Run.Covered.pages_le {base : Word} (hcov : run.Covered base) {t : ThreadPages}
    (ht : t ∈ run.threads) {calls : List PageCall} (hsub : calls ⊆ run.calls) {off n : Nat}
    (hoff : calls.map PageCall.offset = pagesFrom off n) (hmod : off % pageSize = 0)
    (hpos : 0 < n) (hlt : run.enclaveSizeOf t < 2 ^ 64) :
    toSize off + pageSize * n ≤ run.enclaveSizeOf t := by
  refine pagesFrom_le hlt hpos fun o ho => ?_
  rw [← hoff] at ho
  obtain ⟨c, hc, rfl⟩ := mem_map.mp ho
  have hmem : c.offset ∈ pagesFrom off n := hoff ▸ mem_map_of_mem hc
  obtain ⟨i, -, hi⟩ := mem_map.mp hmem
  refine hcov.page_le ht (hsub hc) ?_ ?_
  · rw [← hi]
    exact toSize_lt _
  · rw [← hi]
    refine toSize_mod_pageSize (x := off + pageSize * i) ?_
    rw [Nat.add_mul_mod_self_left, hmod]

/-- For every library that lies below `2 ^ 42`: the range that the threads test covers the pages
of the enclave only if there are no threads. -/
theorem enclave_size_covers_iff (base : Word)
    (hrun : processPages img heap stack tcsp nssa mapHeapFirst = some run)
    (hlib : ∀ h ∈ img.loads, h.vaddr.toNat + h.filesz.toNat < 2 ^ 42) :
    run.Covered base ↔ tcsp ≤ 0 := by
  obtain ⟨hsize, hnil, hfirst, hlast⟩ := processPages_layout hrun rfl
  constructor
  · intro hcov
    by_contra hpos
    obtain ⟨t, ht⟩ := List.exists_mem_of_ne_nil _ (fun hno => hpos (hnil.mp hno))
    have hmod := lastOffset_mod (libBase_mod heap mapHeapFirst) img.loads
    have hstored := hsize t ht
    have hlt : run.enclaveSizeOf t < 2 ^ 64 := hstored ▸ toSize_lt _
    have hlen : 0 < tcsp.toNat * (stack + nssa + 2) := by
      refine Nat.mul_pos ?_ ?_ <;> omega
    -- in the order of the pages: the heap in front of the library, and all behind it
    have hfront : mapHeapFirst = true →
        heap = 0 ∨ toSize pageSize + pageSize * heap ≤ run.enclaveSizeOf t := by
      rintro rfl
      refine (Nat.eq_zero_or_pos heap).imp_right fun hheap => ?_
      exact hcov.pages_le ht run.heapFirst_subset hfirst (by decide) hheap hlt
    have hstart : (libBase heap mapHeapFirst +
        lastOffset (libBase heap mapHeapFirst) img.loads) % pageSize = 0 := by
      rw [Nat.add_mod, hmod, libBase_mod]
      rfl
    have hback := hcov.pages_le ht run.back_subset hlast hstart (by omega) hlt
    have hcode : lastOffset (libBase heap mapHeapFirst) img.loads < 2 ^ 43 ∨
        lastOffset (libBase heap mapHeapFirst) img.loads = libBase heap mapHeapFirst := by
      by_cases hloads : img.loads = []
      · right
        rw [hloads]
        exact List.foldl_nil
      · exact .inl (lastOffset_lt hloads hlib)
    refine pages_exceed_count mapHeapFirst hlen hmod hcode rfl ?_ hfront hback
    rw [hstored, getEnclaveSize]
    have hcount : tcsp * (1 + stack + (1 : Nat) * nssa + (1 : Nat)) =
        (tcsp.toNat * (stack + nssa + 2) : Nat) := by
      push_cast
      rw [Int.toNat_of_nonneg (by omega)]
      ring
    rw [hcount]
  · intro hneg t ht
    rw [hnil.mpr hneg] at ht
    cases ht

end Covers

def smallLibrary : ElfImage :=
  { phdrs := [⟨.load, 7, 0, 0, 0x1000, 0x1000⟩, ⟨.tls, 4, 0x100, 0x100, 0x170, 0x170⟩]
    tdata := some ⟨0x100, 0x170⟩
    noteSigstruct := none
    entry := some 0x40
    file := store (fun _ => 0) 0x100 8 parmsMagic
    size := 0x2000 }

theorem smallLibrary_noThread :
    ∃ run, processPages smallLibrary 1 1 0 2 true = some run ∧ run.Covered 0x100000 := by
  have hsome : (processPages smallLibrary 1 1 0 2 true).isSome := by decide +kernel
  obtain ⟨run, hrun⟩ := Option.isSome_iff_exists.mp hsome
  exact ⟨run, hrun, (enclave_size_covers_iff 0x100000 hrun (by decide)).mpr (by decide)⟩

/-- An enclave of eight pages with one thread, whose own TCS is out of the range that it tests. -/
theorem enclave_size_counts_pages :
    (processPages smallLibrary 1 1 1 2 true).map
        (fun run => (run.calls.map PageCall.offset, run.threads.map run.enclaveSizeOf)) =
      some ([0, 0x1000, 0x2000, 0x3000, 0x4000, 0x5000, 0x6000, 0x7000], [8]) ∧
    inEnclaveRange ⟨0x100000, 8⟩ (0x100000 + 0x7000) 1 = false := by
  constructor
  · decide +kernel
  · decide

end RktIo.Sgx
