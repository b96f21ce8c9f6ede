import RktIo.Mem.RangeArith

/-!
# What `enclave_mremap` does to the memory

`enclave_mremap` takes a new range, copies the old one there and releases the old one. The new
range is chosen while the old pages are still marked, so the copy never runs into its own source,
wherever the hint points.
-/

namespace RktIo.Mem

def MremapKeeps (m : Mman) (oldAddr oldLength newLength : Nat) :
    Except Errno Nat × Mman → Prop
  | (.error _, m') => m'.mem = m.mem ∧ m'.mmapBitmap = m.mmapBitmap
  | (.ok p, m') =>
    (pagesOf p newLength ⊆ managedPages m ∧ Disjoint (pagesOf p newLength) (reserved m))
      ∧ Disjoint (pagesOf p newLength) (pagesOf oldAddr oldLength)
      ∧ (∀ i < min oldLength newLength, m'.mem (p + i) = m.mem (oldAddr + i))
      ∧ ∀ a, a / 4096 ∈ reserved m → m'.mem a = m.mem a

/-! ## The copy -/

theorem mem_pagesOf {p length a : Nat} (hal : p % 4096 = 0) (hlo : p ≤ a) (hhi : a < p + length) :
    a / 4096 ∈ pagesOf p length := by
  simp only [pagesOf, Set.mem_ofPred_eq]
  omega

theorem memcpy_of_reserved {m : Mman} {p src length n a : Nat} (hal : p % 4096 = 0)
    (hfree : Disjoint (pagesOf p length) (reserved m)) (hn : n ≤ length)
    (ha : a / 4096 ∈ reserved m) : memcpy m.mem p src n a = m.mem a := by
  refine if_neg fun ⟨hlo, hhi⟩ => ?_
  exact Set.disjoint_left.mp hfree (mem_pagesOf hal hlo (by omega)) ha

theorem memcpy_apply {mem : Nat → UInt8} {dst src n i : Nat} (hi : i < n) :
    memcpy mem dst src n (dst + i) = mem (src + i) := by
  rw [memcpy, if_pos (by omega), Nat.add_sub_cancel_left]

/-! ## The release -/

theorem enclaveMunmap_of_managed {m : Mman} (hm : m.Wf) {addr length : Nat}
    (hal : addr % 4096 = 0) (hman : pagesOf addr length ⊆ managedPages m) :
    ∃ ret m', enclaveMunmap m addr length = some (ret, m') ∧ m'.mem = m.mem := by
  by_cases hbad : addr % pageSize ≠ 0 ∨ length = 0 ∨ (!inMmapRange m addr length) = true
  · -- refused: `enclave_mremap` does not look at the result
    exact ⟨_, m, if_pos hbad, rfl⟩
  · simp only [not_or, Bool.not_eq_true', Bool.not_eq_false, ne_eq, not_not] at hbad
    obtain ⟨-, hne, hrange⟩ := hbad
    have hpos : 0 < length := Nat.pos_of_ne_zero hne
    have hright : RangeTestRight m addr length := fun _ => pagesOf_bound hm hal hpos hman
    obtain ⟨used, map, hmun, -⟩ := enclaveMunmap_of_inMmapRange hm hal hpos
      (length_le_of_rangeTestRight hm hrange hright) (base_le_of_inMmapRange hrange)
      (hright hrange) hrange
    exact ⟨_, _, hmun, rfl⟩

/-! ## The call -/

theorem enclaveMremap_keeps {m : Mman} (hm : m.Wf) {oldAddr oldLength newAddr newLength : Nat}
    (mremapFixed : Bool) (hal : oldAddr % 4096 = 0)
    (hold : pagesOf oldAddr oldLength ⊆ reserved m) (hlen : newLength ≤ 2 ^ 64 - 4096)
    (hwrap : newAddr + newLength < 2 ^ 64) :
    ∃ r, enclaveMremap m oldAddr oldLength newAddr newLength mremapFixed = some r
      ∧ MremapKeeps m oldAddr oldLength newLength r := by
  unfold enclaveMremap
  cases mremapFixed with
  | true => exact ⟨_, rfl, rfl, rfl⟩
  | false =>
    obtain ⟨r, hmmap, hr⟩ := enclaveMmap_spec hm false hlen hwrap
    simp only [Bool.false_eq_true, if_false, hmmap, Option.bind_eq_bind, Option.bind_some]
    cases hr with
    | failed e => exact ⟨_, rfl, rfl, rfl⟩
    | done p used map htakes _ hfree =>
      -- a mapping that is not fixed takes pages that were free, and the old ones are not
      have hfree := hfree rfl
      have hcount : (if oldLength > newLength then newLength else oldLength)
          = min oldLength newLength := by
        split <;> omega
      rw [hcount]
      obtain ⟨ret, m', hmun, hmem⟩ := enclaveMunmap_of_managed
        (hm.of_update htakes.length_eq used
          (memcpy m.mem p oldAddr (min oldLength newLength)))
        hal (hold.trans fun q hq => hq.1)
      dsimp only
      rw [hmun]
      refine ⟨_, rfl, ⟨htakes.managed, hfree⟩, hfree.mono_right hold, ?_, ?_⟩
      · intro i hi
        rw [hmem]
        exact memcpy_apply hi
      · intro a ha
        rw [hmem]
        exact memcpy_of_reserved htakes.aligned hfree (Nat.min_le_right _ _) ha

/-- **`enclave_mremap` preserves contents.** In every state that calls can reach, for every
reserved old region and every hint: a call that succeeds has taken free pages only, they hold what
the old region held as far as both go, and no reserved page has changed; a call that fails changes
neither memory nor bitmap. -/
theorem mremap_preserves_contents (h : Heap) (raw : Nat → Word) (mem : Nat → UInt8)
    (mmapFiles : Nat) (calls : List Call) (m₀ m : Mman)
    (hinit : enclaveMmanInit raw mem h.base h.numPages h.topdown mmapFiles = some m₀)
    (hrun : runCalls m₀ calls = some m) (oldAddr oldLength newAddr newLength : Nat)
    (mremapFixed : Bool) (hal : oldAddr % 4096 = 0)
    (hold : pagesOf oldAddr oldLength ⊆ reserved m) (hlen : newLength ≤ 2 ^ 64 - 4096)
    (hwrap : newAddr + newLength < 2 ^ 64) :
    ∃ r, enclaveMremap m oldAddr oldLength newAddr newLength mremapFixed = some r
      ∧ MremapKeeps m oldAddr oldLength newLength r := by
  obtain ⟨m₁, hinit₁, hwf₁, _⟩ := enclaveMmanInit_spec h raw mem mmapFiles
  rw [hinit] at hinit₁
  cases hinit₁
  exact enclaveMremap_keeps (runCalls_wf calls hwf₁ hrun) mremapFixed hal hold hlen hwrap

theorem firstPage_eval :
    ((enclaveMmanInit (fun _ => 0) (fun _ => 0) threePageHeap.base threePageHeap.numPages
      threePageHeap.topdown 0).bind fun m => (enclaveMmap m 0 4096 false).map Prod.fst)
        = some (.ok 12288) := by
  decide +kernel

/-- On three pages, a mapping of the last one that is moved with a hint at itself. -/
theorem mremap_preserves_contents_lastPage :
    ∃ m₀ m, enclaveMmanInit (fun _ => 0) (fun _ => 0) threePageHeap.base threePageHeap.numPages
        threePageHeap.topdown 0 = some m₀
      ∧ runCalls m₀ [.mmap 0 4096 false] = some m ∧ pagesOf 12288 4096 ⊆ reserved m
      ∧ ∃ r, enclaveMremap m 12288 4096 12288 4096 false = some r ∧ MremapKeeps m 12288 4096 4096 r := by
  obtain ⟨m₀, hinit, hwf, -⟩ := enclaveMmanInit_spec threePageHeap (fun _ => 0) (fun _ => 0) 0
  obtain ⟨r, hmmap, hr⟩ := enclaveMmap_spec hwf false (show 4096 ≤ 2 ^ 64 - 4096 by omega)
    (show 0 + 4096 < 2 ^ 64 by omega)
  have heval := firstPage_eval
  rw [hinit, Option.bind_some, hmmap, Option.map_some, Option.some.injEq] at heval
  cases hr with
  | failed e => cases heval
  | done p used map htakes hfixed hfree =>
    cases heval
    have hrun : runCalls m₀ [.mmap 0 4096 false]
        = some { m₀ with mmapBitmap := map, usedPages := used } := by
      rw [runCalls, Call.exec, hmmap]
      rfl
    have hold : pagesOf 12288 4096 ⊆ reserved { m₀ with mmapBitmap := map, usedPages := used } :=
      Set.subset_union_right.trans htakes.reserved_eq.symm.subset
    exact ⟨m₀, _, hinit, hrun, hold, mremap_preserves_contents threePageHeap (fun _ => 0)
      (fun _ => 0) 0 _ m₀ _ hinit hrun 12288 4096 12288 4096 false (by decide) hold (by omega)
      (by omega)⟩

end RktIo.Mem
