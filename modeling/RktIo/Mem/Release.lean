import RktIo.Mem.Refinement

/-!
# Giving regions back

`enclave_mmap` searches for free pages by bitmap index; `enclave_munmap` checks its range by
address, and `mmap_end` is the address of the *last page*, not the end of it. A region with
the last managed page in it is therefore found by the first and refused by the second: it
can be handed out, but never given back.

`enclaveMmap_givenBack_iff` says that in every reachable state these are the only regions
that cannot be given back.
-/

namespace RktIo.Mem

open WordBits

/-! ## No call changes the geometry

Unlike the specifications of the calls this holds for all arguments. -/

variable {ret : Except Errno Nat} {m m' : Mman} {length : Nat}

variable {addr pages : Nat} {fixed : Bool} {map : List Word}

theorem mmapPlaceAt_length (h : mmapPlaceAt m addr length pages fixed = some (ret, map)) :
    map.length = m.mmapBitmap.length := by
  unfold mmapPlaceAt at h
  split at h
  · split at h
    · cases h; rfl
    · obtain ⟨map', hset, heq⟩ := Option.bind_eq_some_iff.mp h
      cases heq
      exact bitmapUpdate_length hset
  · split at h
    · obtain ⟨count, _, h⟩ := Option.bind_eq_some_iff.mp h
      split at h
      · obtain ⟨map', hset, heq⟩ := Option.bind_eq_some_iff.mp h
        cases heq
        exact bitmapUpdate_length hset
      · cases h; rfl
    · cases h; rfl

theorem mmapSearch_length
    (h : mmapSearch m pages = some (ret, map)) : map.length = m.mmapBitmap.length := by
  unfold mmapSearch at h
  obtain ⟨index, _, h⟩ := Option.bind_eq_some_iff.mp h
  split at h
  · cases h; rfl
  · obtain ⟨map', hset, heq⟩ := Option.bind_eq_some_iff.mp h
    cases heq
    exact bitmapUpdate_length hset

theorem sameGeometry_of_chosen {ret₂ : Except Errno Nat}
    (hlen : map.length = m.mmapBitmap.length) (h : (match ret₂ with
      | .ok p => some (Except.ok p, { m with
          mmapBitmap := map
          usedPages := u64 (m.usedPages + pages) })
      | .error e => some (Except.error e, { m with mmapBitmap := map })) = some (ret, m')) :
    SameGeometry m m' := by
  cases ret₂ <;> cases h <;> exact ⟨rfl, rfl, rfl, rfl, hlen⟩

theorem enclaveMmap_sameGeometry
    (h : enclaveMmap m addr length fixed = some (ret, m')) : SameGeometry m m' := by
  unfold enclaveMmap at h
  simp only at h
  split at h
  · cases h
    exact .refl m
  · obtain ⟨⟨ret₁, map₁⟩, hplace, h⟩ := Option.bind_eq_some_iff.mp h
    have hlen₁ := mmapPlaceAt_length hplace
    split at h
    · rename_i heq
      cases heq
      obtain ⟨⟨ret₂, map₂⟩, hsearch, h⟩ := Option.bind_eq_some_iff.mp h
      exact sameGeometry_of_chosen ((mmapSearch_length hsearch).trans hlen₁) h
    · exact sameGeometry_of_chosen hlen₁ h

theorem enclaveMunmap_sameGeometry {ret : Except Errno Unit}
    (h : enclaveMunmap m addr length = some (ret, m')) : SameGeometry m m' := by
  unfold enclaveMunmap at h
  simp only at h
  split at h
  · cases h
    exact .refl m
  · obtain ⟨count, _, h⟩ := Option.bind_eq_some_iff.mp h
    obtain ⟨map, hclear, h⟩ := Option.bind_eq_some_iff.mp h
    cases h
    exact ⟨rfl, rfl, rfl, rfl, bitmapUpdate_length hclear⟩

theorem enclaveMremap_cases {old oldLen new newLen : Nat}
    (h : enclaveMremap m old oldLen new newLen fixed = some (ret, m')) :
    (∃ e, ret = .error e ∧ m' = m)
      ∨ (∃ e, ret = .error e ∧ enclaveMmap m new newLen false = some (.error e, m'))
      ∨ ∃ p m₁ mem status, ret = .ok p ∧ enclaveMmap m new newLen false = some (.ok p, m₁)
          ∧ enclaveMunmap { m₁ with mem := mem } old oldLen = some (status, m') := by
  unfold enclaveMremap at h
  split at h
  · cases h
    exact Or.inl ⟨_, rfl, rfl⟩
  · obtain ⟨⟨ret₁, m₁⟩, hmmap, h⟩ := Option.bind_eq_some_iff.mp h
    cases ret₁ with
    | error e =>
      cases h
      exact Or.inr (Or.inl ⟨e, rfl, hmmap⟩)
    | ok p =>
      obtain ⟨⟨status, m₂⟩, hmun, h⟩ := Option.bind_eq_some_iff.mp h
      cases h
      exact Or.inr (Or.inr ⟨p, m₁, _, status, rfl, hmmap, hmun⟩)

theorem SameGeometry.of_mem (h : SameGeometry m m') (mem : Nat → UInt8) :
    SameGeometry m { m' with mem := mem } :=
  ⟨h.base, h.last, h.pages, h.topdown, h.words⟩

theorem exec_sameGeometry {c : Call} {reply : Reply} (h : c.exec m = some (reply, m')) :
    SameGeometry m m' := by
  cases c with
  | mmap addr length fixed =>
    obtain ⟨⟨ret, m₁⟩, hexec, heq⟩ := Option.map_eq_some_iff.mp h
    cases heq
    exact enclaveMmap_sameGeometry hexec
  | munmap addr length =>
    obtain ⟨⟨ret, m₁⟩, hexec, heq⟩ := Option.map_eq_some_iff.mp h
    cases heq
    exact enclaveMunmap_sameGeometry hexec
  | mremap old oldLen new newLen fixed =>
    obtain ⟨⟨ret, m₁⟩, hexec, heq⟩ := Option.map_eq_some_iff.mp h
    cases heq
    rcases enclaveMremap_cases hexec with ⟨_, _, hm⟩ | ⟨_, _, hmmap⟩ | ⟨_, _, mem, _, _, hmmap, hmun⟩
    · rw [hm]
      exact .refl m
    · exact enclaveMmap_sameGeometry hmmap
    · exact ((enclaveMmap_sameGeometry hmmap).of_mem mem).trans (enclaveMunmap_sameGeometry hmun)

theorem runCalls_wf (calls : List Call) :
    ∀ {m m' : Mman}, m.Wf → runCalls m calls = some m' → m'.Wf := by
  induction calls with
  | nil =>
    intro m m' hm h
    cases h
    exact hm
  | cons c calls ih =>
    intro m m' hm h
    obtain ⟨⟨reply, m₁⟩, hexec, hrun⟩ := Option.bind_eq_some_iff.mp h
    exact ih ((exec_sameGeometry hexec).wf hm) hrun

/-! ## Giving back -/

def lastPage (m : Mman) : Nat := m.mmapEnd / 4096

/-- The region of `length` bytes at `p` can be given back: `enclave_munmap` takes out its
pages, a successful `enclave_mremap` leaves none of them, and `syscall_SYS_munmap` reports
success only if they are gone. -/
structure GivenBack (host : Nat → Nat → Int) (m : Mman) (p length : Nat) : Prop where
  munmap : ∃ m', enclaveMunmap m p length = some (.ok (), m')
    ∧ reserved m' = reserved m \ pagesOf p length
  mremap : ∀ newAddr newLength mremapFixed q m',
    enclaveMremap m p length newAddr newLength mremapFixed = some (.ok q, m') →
      Disjoint (pagesOf p length) (reserved m')
  syscall : ∀ m', syscallSYSMunmap host m p length = some (0, m') →
    Disjoint (pagesOf p length) (reserved m')

variable {p : Nat}

section

variable (hm : m.Wf) (hal : p % 4096 = 0) (hpos : 0 < length)
  (hman : pagesOf p length ⊆ managedPages m)

include hm hal hpos hman

theorem pagesOf_bound : p + length ≤ m.mmapEnd + 4096 := by
  have hlast : p / 4096 + (length + 4095) / 4096 - 1 ∈ managedPages m := by
    apply hman
    simp only [pagesOf, Set.mem_ofPred_eq]
    omega
  obtain ⟨hbal, _, hppos, _, hend, _, _⟩ := hm
  simp only [managedPages, Set.mem_ofPred_eq] at hlast
  omega

theorem lastPage_notMem_iff : lastPage m ∉ pagesOf p length ↔ p + length ≤ m.mmapEnd := by
  have hbound := pagesOf_bound hm hal hpos hman
  obtain ⟨hbal, _, _, _, hend, _, _⟩ := hm
  simp only [lastPage, pagesOf, Set.mem_ofPred_eq]
  omega

end

theorem givenBack_of_inMmapRange (host : Nat → Nat → Int) (hm : m.Wf) (hal : p % 4096 = 0)
    (hpos : 0 < length) (hlen : length ≤ 2 ^ 64 - 4096) (hlo : m.mmapBase ≤ p)
    (hhi : p + length ≤ m.mmapEnd + 4096) (hrange : inMmapRange m p length = true) :
    GivenBack host m p length := by
  -- the check depends on the geometry alone, so it also passes after an `enclave_mmap`
  have hgone : ∀ {m₁ : Mman}, SameGeometry m m₁ →
      ∃ m₂, enclaveMunmap m₁ p length = some (.ok (), m₂)
        ∧ reserved m₂ = reserved m₁ \ pagesOf p length := by
    intro m₁ hgeo
    have hrange₁ : inMmapRange m₁ p length = true := by
      unfold inMmapRange at hrange ⊢
      rw [hgeo.base, hgeo.last]
      exact hrange
    obtain ⟨used, map, hmun, _, hres⟩ := enclaveMunmap_of_inMmapRange (hgeo.wf hm) hal hpos hlen
      (by rw [hgeo.base]; exact hlo) (by rw [hgeo.last]; exact hhi) hrange₁
    exact ⟨_, hmun, hres⟩
  refine ⟨hgone (.refl m), ?_, ?_⟩
  · intro newAddr newLength mremapFixed q m' h
    rcases enclaveMremap_cases h with ⟨e, he, _⟩ | ⟨e, he, _⟩ | ⟨_, _, mem, _, _, hmmap, hmun⟩
    · cases he
    · cases he
    · obtain ⟨m₂, hmun₂, hres⟩ := hgone ((enclaveMmap_sameGeometry hmmap).of_mem mem)
      rw [hmun] at hmun₂
      cases hmun₂
      rw [hres]
      exact Set.disjoint_sdiff_right
  · intro m' h
    obtain ⟨m₂, hmun₂, hres⟩ := hgone (.refl m)
    have hstart : inMmapRange m p 0 = true := by
      have hend := hm.end_eq
      have hwrap := hm.no_wrap
      have hpages := hm.pages_pos
      have hbal := hm.base_aligned
      rw [inMmapRange_iff m (by omega)]
      omega
    rw [syscallSYSMunmap, if_pos hstart, hmun₂] at h
    cases h
    rw [hres]
    exact Set.disjoint_sdiff_right

/-- **Which regions can be given back.** After any calls on any heap, a region that
`enclave_mmap` hands out for a request that does not wrap can be given back exactly if the
last managed page is not in it, or if it ends at the very top of the address space, where
the end of the range wraps to 0 and so passes the range check. -/
theorem enclaveMmap_givenBack_iff (h : Heap) (raw : Nat → Word) (mem : Nat → UInt8)
    (mmapFiles : Nat) (calls : List Call) (m₀ m m' : Mman) (addr length p : Nat)
    (mmapFixed : Bool) (host : Nat → Nat → Int)
    (hinit : enclaveMmanInit raw mem h.base h.numPages h.topdown mmapFiles = some m₀)
    (hrun : runCalls m₀ calls = some m) (hlen : length ≤ 2 ^ 64 - 4096)
    (hwrap : addr + length < 2 ^ 64)
    (hmmap : enclaveMmap m addr length mmapFixed = some (.ok p, m')) :
    GivenBack host m' p length ↔ lastPage m' ∉ pagesOf p length ∨ p + length = 2 ^ 64 := by
  obtain ⟨m₁, hinit₁, hwf₁, _⟩ := enclaveMmanInit_spec h raw mem mmapFiles
  rw [hinit] at hinit₁
  cases hinit₁
  have hwf := runCalls_wf calls hwf₁ hrun
  have hpos : 0 < length := by
    rcases Nat.eq_zero_or_pos length with hz | hpos
    · simp [enclaveMmap, hz] at hmmap
    · exact hpos
  obtain ⟨r, hexec, hr⟩ := enclaveMmap_spec hwf mmapFixed hlen hwrap
  rw [hmmap] at hexec
  cases hexec
  cases hr with
  | done p used map htakes _ _ =>
    have hwf' := hwf.of_update htakes.length_eq used m.mem
    have hbound := pagesOf_bound hwf' htakes.aligned hpos htakes.managed
    rw [lastPage_notMem_iff hwf' htakes.aligned hpos htakes.managed]
    have hend := hwf'.end_eq
    have htop := hwf'.no_wrap
    have hpages := hwf'.pages_pos
    have hbase := htakes.base_le
    constructor
    · intro hback
      by_contra hnot
      obtain ⟨hlast, hne⟩ := not_or.mp hnot
      -- below the top nothing wraps, so `enclave_munmap` refuses the range
      obtain ⟨r, hmun, hr⟩ := enclaveMunmap_spec hwf' hlen
        (show p + length < 2 ^ 64 from by omega)
      obtain ⟨m'', hok, _⟩ := hback.munmap
      rw [hmun] at hok
      cases hok
      cases hr with
      | done _ _ hacc _ _ => exact hlast hacc.2.2.2
    · intro hcond
      refine givenBack_of_inMmapRange host hwf' htakes.aligned hpos hlen hbase hbound ?_
      rcases hcond with hlast | hwrap'
      · exact (inMmapRange_iff _ (by omega)).mpr ⟨hbase, hlast⟩
      · have hzero : u64 ((p : Int) + length) = 0 := by unfold u64; omega
        simp [inMmapRange, hzero, hbase]

/-- On three pages allocated top-down the first request gets the last page, which then
cannot be given back: `enclave_munmap` fails, and `syscall_SYS_munmap` returns 0 with the
page still reserved. -/
theorem enclaveMmap_lastPage_not_givenBack :
    ∃ m₀ m₁, enclaveMmanInit (fun _ => 0) (fun _ => 0) threePageHeap.base threePageHeap.numPages
        threePageHeap.topdown 0 = some m₀
      ∧ enclaveMmap m₀ 0 4096 false = some (.ok 12288, m₁)
      ∧ enclaveMunmap m₁ 12288 4096 = some (.error .EINVAL, m₁)
      ∧ syscallSYSMunmap (fun _ _ => 0) m₁ 12288 4096 = some (0, m₁)
      ∧ 3 ∈ pagesOf 12288 4096 ∧ 3 ∈ reserved m₁ := by
  obtain ⟨m₀, hinit, hwf, _, _, _⟩ :=
    enclaveMmanInit_spec threePageHeap (fun _ => 0) (fun _ => 0) 0
  have heval : ((enclaveMmanInit (fun _ => 0) (fun _ => 0) threePageHeap.base
        threePageHeap.numPages threePageHeap.topdown 0).bind
      (fun m => (enclaveMmap m 0 4096 false).map
        (fun r => (m.mmapBase, m.mmapEnd, r.1)))) = some (8192, 12288, .ok 12288) := by
    decide +kernel
  obtain ⟨r, hmmap, hr⟩ := enclaveMmap_spec hwf false (show 4096 ≤ 2 ^ 64 - 4096 from by omega)
    (show 0 + 4096 < 2 ^ 64 from by omega)
  rw [hinit, Option.bind_some, hmmap] at heval
  cases hr with
  | failed e => simp at heval
  | done p used map htakes _ _ =>
    simp only [Option.map_some, Option.some.injEq, Prod.mk.injEq, Except.ok.injEq] at heval
    obtain ⟨hbase, hend, rfl⟩ := heval
    have hrefused : enclaveMunmap { m₀ with mmapBitmap := map, usedPages := used } 12288 4096
        = some (.error .EINVAL, { m₀ with mmapBitmap := map, usedPages := used }) := by
      simp [enclaveMunmap, inMmapRange, u64, hend]
    refine ⟨m₀, _, hinit, hmmap, hrefused, ?_, ?_, ?_⟩
    · have hrange : inMmapRange { m₀ with mmapBitmap := map, usedPages := used } 12288 0 = true := by
        simp [inMmapRange, hbase, hend, u64]
      rw [syscallSYSMunmap, if_pos hrange, hrefused]
      rfl
    · simp [pagesOf]
    · have hmem : 3 ∈ reserved m₀ ∪ pagesOf 12288 4096 := Or.inr (by simp [pagesOf])
      rw [← htakes.reserved_eq] at hmem
      exact hmem

/-- The first page of the same heap, requested by a hint, can be given back. -/
theorem enclaveMmap_givenBack_iff_firstPage :
    ∃ m₀ m', enclaveMmanInit (fun _ => 0) (fun _ => 0) threePageHeap.base threePageHeap.numPages
        threePageHeap.topdown 0 = some m₀
      ∧ enclaveMmap m₀ 8192 4096 false = some (.ok 8192, m')
      ∧ GivenBack (fun _ _ => 0) m' 8192 4096 := by
  obtain ⟨m₀, hinit, hwf, _, _, _⟩ :=
    enclaveMmanInit_spec threePageHeap (fun _ => 0) (fun _ => 0) 0
  have heval : ((enclaveMmanInit (fun _ => 0) (fun _ => 0) threePageHeap.base
        threePageHeap.numPages threePageHeap.topdown 0).bind
      (fun m => (enclaveMmap m 8192 4096 false).map
        (fun r => (r.2.mmapEnd, r.1)))) = some (12288, .ok 8192) := by
    decide +kernel
  rw [hinit, Option.bind_some] at heval
  obtain ⟨⟨ret, m'⟩, hmmap, hr⟩ := Option.map_eq_some_iff.mp heval
  simp only [Prod.mk.injEq] at hr
  obtain ⟨hend, rfl⟩ := hr
  refine ⟨m₀, m', hinit, hmmap, ?_⟩
  apply (enclaveMmap_givenBack_iff threePageHeap (fun _ => 0) (fun _ => 0) 0 [] m₀ m₀ m' 8192 4096
    8192 false (fun _ _ => 0) hinit rfl (by omega) (by omega) hmmap).mpr
  simp [lastPage, pagesOf, hend]

end RktIo.Mem
