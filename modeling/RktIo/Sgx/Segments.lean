import RktIo.Sgx.Loader

/-!
# The pages of the segments, in closed form

The loop over the program headers of `process_pages` counts what it has read of the file and what
it has filled with zeros. In closed form, a segment gets `count` consecutive pages from the page
of its address on, with the bytes that belong there.

## The architecture

* `fullPage_stateAt` — one page of the file, and `fullPages_eq`, all of them;
* **`segment_eq`** — one segment, and **`segmentLoop_eq`**, all of them.
-/

namespace RktIo.Sgx

open List Phdr

/-! ## Integers -/

theorem toSize_cast (x : Int) : (toSize x : Int) = x % 2 ^ 64 := by
  unfold toSize
  omega

theorem toSize_of_lt {n : Nat} (h : n < 2 ^ 64) : toSize n = n := by
  unfold toSize
  omega

@[simp] theorem toSize_add_toSize (x y : Int) : toSize (x + toSize y) = toSize (x + y) := by
  rw [toSize_cast]
  unfold toSize
  omega

@[simp] theorem toSize_toSize_add (x y : Int) : toSize (toSize x + y) = toSize (x + y) := by
  rw [add_comm, toSize_add_toSize, add_comm]

@[simp] theorem toSize_toSize (x : Int) : toSize (toSize x) = toSize x := by
  simpa using toSize_toSize_add x 0

theorem toSize_lt (x : Int) : toSize x < 2 ^ 64 := by
  unfold toSize
  omega

theorem toInt32_eq (x : Int) :
    toInt32 x = if x % 2 ^ 32 < 2 ^ 31 then x % 2 ^ 32 else x % 2 ^ 32 - 2 ^ 32 :=
  Int.bmod_def x (2 ^ 32)

theorem toInt32_range (x : Int) : -2 ^ 31 ≤ toInt32 x ∧ toInt32 x < 2 ^ 31 := by
  rw [toInt32_eq]
  split <;> omega

theorem toInt32_of_lt {n : Nat} (h : n < 2 ^ 31) : toInt32 n = n := by
  rw [toInt32_eq, if_pos] <;> omega

theorem zeroPages_natCast (n : Nat) : zeroPages n = (n + (pageSize - 1)) / pageSize := by
  unfold zeroPages
  rw [Int.tdiv_eq_ediv_of_nonneg (by omega), Int.tmod_eq_emod_of_nonneg (by omega), pageSize]
  split <;> split <;> omega

theorem zeroPages_of_nonpos {x : Int} (h : x ≤ 0) : zeroPages x = 0 := by
  have hmod : x.tmod pageSize ≤ 0 := by
    obtain ⟨n, rfl⟩ := Int.exists_eq_neg_ofNat h
    rw [Int.neg_tmod, Int.tmod_eq_emod_of_nonneg (by omega)]
    have := Int.emod_nonneg (n : Int) (b := pageSize) (by decide)
    omega
  rw [zeroPages, if_neg (by omega), if_neg (by omega)]

section Segment

variable (file : Nat → BitVec 8) (libbase : Nat) (prot : Word) (h : Phdr)

/-! ## The pages of a segment -/

def Phdr.skew : Nat := h.vaddr.toNat % pageSize
def Phdr.firstPage : Nat := h.vaddr.toNat / pageSize

theorem Phdr.vaddr_eq : h.vaddr.toNat = pageSize * h.firstPage + h.skew :=
  (Nat.div_add_mod _ _).symm

theorem Phdr.skew_lt : h.skew < pageSize := Nat.mod_lt _ (by decide)

theorem Phdr.start_eq : h.start = pageSize * h.firstPage := Nat.mul_comm _ _

def Phdr.content (a : Nat) : BitVec 8 :=
  if h.vaddr.toNat ≤ a ∧ a < h.vaddr.toNat + h.filesz.toNat then
    file (h.offset.toNat + (a - h.vaddr.toNat))
  else 0

def Phdr.pageAt (q : Nat) : Page := fun j => h.content file (pageSize * q + j.val)

def Phdr.call (k : Nat) : PageCall :=
  ⟨toSize (libbase + pageSize * (h.firstPage + k : Nat)), prot, h.pageAt file (h.firstPage + k)⟩

/-- The pages that the file fills to the end, how much of the file is left behind them, and what
is left of the page that this is copied to, as it is counted. -/
def Phdr.fullCount : Nat := (h.skew + h.filesz.toNat) / pageSize
def Phdr.fileRead : Nat := if h.fullCount = 0 then 0 else pageSize * h.fullCount - h.skew
def Phdr.remaining : Nat := h.filesz.toNat - h.fileRead
def Phdr.memRead : Nat := if h.remaining = 0 then 0 else pageSize - h.remaining
def Phdr.fileCount : Nat := h.fullCount + if h.remaining = 0 then 0 else 1

def Phdr.count : Nat :=
  h.fileCount + zeroPages (toInt32 (toSize (h.memsz.toNat - h.filesz.toNat - h.memRead)))

def Phdr.calls : List PageCall := (List.range h.count).map (h.call file libbase prot)

def Phdr.Fits : Prop := h.skew + h.filesz.toNat < 2 ^ 43

instance : Decidable h.Fits := inferInstanceAs (Decidable (_ < _))

def Phdr.stateAt (n : Nat) : SegState :=
  { pageoffset := toSize (h.start + pageSize * n)
    segoffset := h.offset.toNat + if n = 0 then 0 else pageSize * n - h.skew
    fileRead := if n = 0 then 0 else pageSize * n - h.skew
    calls := (List.range n).map (h.call file libbase prot) }

theorem copied_eq_pageAt {q diff off n : Nat}
    (hlow : diff + pageSize * q = max (pageSize * q) h.vaddr.toNat)
    (hoff : off + h.vaddr.toNat = h.offset.toNat + (pageSize * q + diff))
    (hn : ∀ j < pageSize, j < diff + n ↔ pageSize * q + j < h.vaddr.toNat + h.filesz.toNat) :
    copied file diff off n = h.pageAt file q := by
  funext j
  have hj := hn j.val j.isLt
  unfold copied pageAt content
  by_cases hin : diff ≤ j.val ∧ j.val < diff + n
  · rw [if_pos hin, if_pos (by omega)]
    congr 1
    omega
  · rw [if_neg hin, if_neg (by omega)]

theorem fullPage_eq (k : Nat) (s : SegState) {diff : Nat}
    (hdiff : diff = if k = 0 then h.vaddr.toNat - s.pageoffset else 0) :
    fullPage file libbase prot h k s =
      { pageoffset := toSize (s.pageoffset + pageSize)
        segoffset := s.segoffset + (pageSize - diff)
        fileRead := s.fileRead + (pageSize - diff)
        calls := s.calls ++ [⟨toSize (libbase + s.pageoffset), prot,
          copied file diff s.segoffset (pageSize - diff)⟩] } := by
  unfold fullPage
  split
  case isTrue hfirst =>
    rw [if_pos hfirst.1] at hdiff
    rw [hdiff]
  case isFalse hfirst =>
    have hzero : diff = 0 := by
      rw [hdiff]
      split <;> omega
    rw [hzero, Nat.sub_zero]

theorem calls_snoc (n : Nat) (page : Page) (hpage : page = h.pageAt file (h.firstPage + n)) :
    (List.range n).map (h.call file libbase prot) ++
        [⟨toSize (libbase + toSize (h.start + pageSize * n)), prot, page⟩] =
      (List.range (n + 1)).map (h.call file libbase prot) := by
  simp only [range_succ, map_append, map_cons, map_nil, toSize_add_toSize,
    call, h.start_eq, hpage]
  push_cast
  ring_nf

theorem toSize_next (n : Nat) :
    toSize (toSize (h.start + pageSize * n) + pageSize) =
      toSize (h.start + pageSize * (n + 1 : Nat)) := by
  rw [toSize_toSize_add]
  push_cast
  ring_nf

@[simp] theorem Phdr.toSize_start : toSize h.start = h.start := by
  have hlt := h.vaddr.isLt
  have hv := h.vaddr_eq
  rw [← h.start_eq] at hv
  exact toSize_of_lt (by omega)

theorem Phdr.skew_eq_stateAt :
    h.skew = h.vaddr.toNat - (h.stateAt file libbase prot 0).pageoffset := by
  have hv := h.vaddr_eq
  have hpo : (h.stateAt file libbase prot 0).pageoffset = h.start := by simp [stateAt]
  rw [hpo, h.start_eq]
  omega

theorem fullPage_stateAt {k : Nat} (hk : pageSize * (k + 1) ≤ h.skew + h.filesz.toNat) :
    fullPage file libbase prot h k (h.stateAt file libbase prot k) =
      h.stateAt file libbase prot (k + 1) := by
  have hv := h.vaddr_eq
  have hskew := h.skew_lt
  have hdiff : (if k = 0 then h.skew else 0) =
      if k = 0 then h.vaddr.toNat - (h.stateAt file libbase prot k).pageoffset else 0 := by
    split
    case isTrue hzero => rw [hzero, ← h.skew_eq_stateAt]
    case isFalse => rfl
  rw [fullPage_eq file libbase prot h k _ hdiff]
  simp only [stateAt, toSize_next]
  rw [calls_snoc]
  · have hread : (if k = 0 then 0 else pageSize * k - h.skew) +
        (pageSize - if k = 0 then h.skew else 0) = pageSize * (k + 1) - h.skew := by
      split
      case isTrue hzero => rw [hzero]; omega
      case isFalse => rw [pageSize] at *; omega
    rw [if_neg (Nat.succ_ne_zero k), Nat.add_assoc, hread]
  · apply copied_eq_pageAt <;> rw [pageSize] at *
    · split <;> omega
    · split <;> omega
    · intro j hj
      split <;> omega

theorem fullPages_eq {n : Nat} (hn : pageSize * n ≤ h.skew + h.filesz.toNat) :
    fullPages file libbase prot h n ⟨h.start, h.offset.toNat, 0, []⟩ =
      h.stateAt file libbase prot n := by
  induction n with
  | zero => simp [fullPages, stateAt]
  | succ n ih =>
    have hstep := ih (by rw [pageSize] at *; omega)
    unfold fullPages at hstep ⊢
    rw [range_succ, foldl_append, hstep]
    exact fullPage_stateAt file libbase prot h hn

theorem partialPage_eq (s : SegState) {diff remaining : Nat}
    (hrem : remaining = toSize (h.filesz.toNat - s.fileRead))
    (hdiff : diff = if h.npages = 0 then h.vaddr.toNat - s.pageoffset else 0) :
    partialPage file libbase prot h s =
      if remaining = 0 then some (s, 0)
      else if diff + remaining ≤ pageSize then
        some (⟨toSize (s.pageoffset + pageSize), s.segoffset, h.filesz.toNat,
          s.calls ++ [⟨toSize (libbase + s.pageoffset), prot,
            copied file diff s.segoffset remaining⟩]⟩, pageSize - remaining)
      else none := by
  have hcond : (if h.npages = 0 ∧ s.pageoffset ≠ h.vaddr.toNat then
      h.vaddr.toNat - s.pageoffset else 0) = diff := by
    rw [hdiff]
    split <;> split <;> omega
  unfold partialPage
  simp only [← hrem, hcond]
  by_cases hzero : remaining = 0
  · rw [if_neg (by omega), if_pos hzero]
  · rw [if_pos (by omega), if_neg hzero]

theorem Phdr.npages_eq :
    h.npages = toInt32 (toSize (h.skew + h.filesz.toNat : Nat) / pageSize : Nat) := by
  have hskew : (h.vaddr.toNat : Int) - h.start = h.skew := by
    rw [h.start_eq, h.vaddr_eq]
    push_cast
    ring
  unfold npages
  rw [hskew]
  norm_cast

variable {h}

theorem Phdr.Fits.npages (hfits : h.Fits) : h.npages = h.fullCount := by
  unfold Phdr.Fits at hfits
  rw [h.npages_eq, toSize_of_lt (by omega), toInt32_of_lt, fullCount]
  rw [pageSize]
  omega

theorem Phdr.fileRead_le : h.fileRead ≤ h.filesz.toNat := by
  unfold fileRead fullCount
  rw [pageSize]
  split <;> omega

theorem Phdr.Fits.partialPage (hfits : h.Fits) :
    ∃ s, partialPage file libbase prot h (h.stateAt file libbase prot h.fullCount) =
        some (s, h.memRead) ∧
      s.fileRead = h.filesz.toNat ∧
      s.pageoffset = toSize (h.start + pageSize * h.fileCount) ∧
      s.calls = (List.range h.fileCount).map (h.call file libbase prot) := by
  have hv := h.vaddr_eq
  have hskew := h.skew_lt
  have hread := h.fileRead_le
  have hrem : h.remaining =
      toSize (h.filesz.toNat - (h.stateAt file libbase prot h.fullCount).fileRead) := by
    show h.remaining = toSize (h.filesz.toNat - h.fileRead)
    have hlt := h.filesz.isLt
    rw [← Int.ofNat_sub hread, toSize_of_lt (by omega), remaining]
  have hdiff : (if h.fullCount = 0 then h.skew else 0) = if h.npages = 0 then
      h.vaddr.toNat - (h.stateAt file libbase prot h.fullCount).pageoffset else 0 := by
    rw [hfits.npages]
    by_cases hfull : h.fullCount = 0
    · rw [hfull, if_pos rfl, ← h.skew_eq_stateAt]
      simp
    · rw [if_neg hfull, if_neg (by omega)]
  rw [partialPage_eq file libbase prot h _ hrem hdiff]
  by_cases hzero : h.remaining = 0
  · refine ⟨h.stateAt file libbase prot h.fullCount, ?_, ?_, ?_, ?_⟩
    · rw [if_pos hzero, memRead, if_pos hzero]
    · show h.fileRead = h.filesz.toNat
      unfold remaining at hzero
      omega
    · simp [fileCount, hzero, stateAt]
    · simp [fileCount, hzero, stateAt]
  · rw [if_neg hzero, if_pos, memRead, if_neg hzero]
    refine ⟨_, rfl, rfl, ?_, ?_⟩
    · simp only [stateAt, toSize_next, fileCount, if_neg hzero]
    · simp only [stateAt, fileCount, if_neg hzero]
      rw [calls_snoc]
      apply copied_eq_pageAt
      · unfold fullCount at *
        rw [pageSize] at *
        split <;> omega
      · unfold fullCount at *
        rw [pageSize] at *
        split <;> omega
      · intro j hj
        unfold remaining fileRead fullCount at *
        rw [pageSize] at *
        split <;> omega
    · unfold remaining fileRead fullCount at *
      rw [pageSize] at *
      split <;> omega

theorem repeatPage_eq (n m : Nat)
    (hzero : ∀ k, n ≤ k → h.pageAt file (h.firstPage + k) = zeroPage) :
    (List.range n).map (h.call file libbase prot) ++
        repeatPage m (libbase + toSize (h.start + pageSize * n)) prot zeroPage =
      (List.range (n + m)).map (h.call file libbase prot) := by
  rw [range_add, map_append, map_map, repeatPage]
  congr 1
  apply map_congr_left
  intro k _
  simp only [Function.comp, call, hzero (n + k) (Nat.le_add_right n k), h.start_eq]
  congr 1
  unfold toSize
  rw [pageSize]
  omega

theorem Phdr.file_le_fileCount (hpos : 0 < h.filesz.toNat) :
    h.skew + h.filesz.toNat ≤ pageSize * h.fileCount := by
  have hskew := h.skew_lt
  unfold fileCount remaining fileRead fullCount
  rw [pageSize] at *
  split <;> split <;> omega

theorem Phdr.pageAt_eq_zero {k : Nat} (hk : h.fileCount ≤ k) :
    h.pageAt file (h.firstPage + k) = zeroPage := by
  have hv := h.vaddr_eq
  have hend : 0 < h.filesz.toNat →
      h.vaddr.toNat + h.filesz.toNat ≤ pageSize * (h.firstPage + k) := by
    intro hpos
    have hfile := file_le_fileCount hpos
    rw [pageSize] at *
    omega
  funext j
  refine if_neg ?_
  omega

theorem Phdr.Fits.segment (hfits : h.Fits) :
    segment file libbase prot h =
      some (h.calls file libbase prot, toSize (h.start + pageSize * h.count)) := by
  obtain ⟨s, hpartial, hread, hpo, hcalls⟩ := hfits.partialPage file libbase prot
  have hfull := fullPages_eq file libbase prot h (n := h.fullCount) (Nat.mul_div_le _ _)
  unfold Sgx.segment
  simp only [hfits.npages, Int.toNat_natCast, hfull, hpartial, Option.bind_eq_bind,
    Option.bind_some, hread, hpo, hcalls]
  rw [repeatPage_eq file libbase prot _ _ fun k hk => h.pageAt_eq_zero file hk, toSize_toSize_add,
    add_assoc, ← mul_add]
  rfl

theorem segment_eq_none (hfits : ¬ h.Fits) : segment file libbase prot h = none := by
  have hskew := h.skew_lt
  have hlt := h.filesz.isLt
  have hnp := h.npages_eq
  unfold Phdr.Fits at hfits
  -- the quotient is truncated, so that fewer pages are processed than the file fills
  have hn : pageSize * (h.npages.toNat + 1) + pageSize < h.skew + h.filesz.toNat := by
    rw [hnp, toInt32_eq]
    unfold toSize
    rw [pageSize] at *
    split <;> omega
  have hfull := fullPages_eq file libbase prot h (n := h.npages.toNat)
    (by rw [pageSize] at *; omega)
  obtain ⟨remaining, hrem, hlong⟩ : ∃ remaining, remaining =
      toSize (h.filesz.toNat - (h.stateAt file libbase prot h.npages.toNat).fileRead) ∧
        pageSize < remaining := by
    refine ⟨_, rfl, ?_⟩
    have hread : (h.stateAt file libbase prot h.npages.toNat).fileRead =
        if h.npages.toNat = 0 then 0 else pageSize * h.npages.toNat - h.skew := by
      rw [stateAt]
    rw [hread]
    unfold toSize
    rw [pageSize] at *
    split <;> omega
  unfold segment
  simp only [hfull]
  rw [partialPage_eq file libbase prot h _ hrem rfl, if_neg (by omega), if_neg (by omega)]
  rfl

theorem segment_eq : segment file libbase prot h =
    if h.Fits then some (h.calls file libbase prot, toSize (h.start + pageSize * h.count))
    else none := by
  split
  case isTrue hfits => exact hfits.segment file libbase prot
  case isFalse hfits => exact segment_eq_none file libbase prot hfits

end Segment

/-! ## The loop -/

def carried : Word → List Phdr → List (Phdr × Word)
  | _, [] => []
  | prot, h :: hs => (h, h.addProt prot) :: carried (h.addProt prot) hs

def lastOffset (pageoffset : Nat) (loads : List Phdr) : Nat :=
  loads.foldl (fun _ h => toSize (h.start + pageSize * h.count)) pageoffset

theorem segmentLoop_eq (file : Nat → BitVec 8) (libbase : Nat) (phdrs : List Phdr) (prot : Word)
    (pageoffset : Nat) :
    segmentLoop file libbase phdrs prot pageoffset =
      if ∀ h ∈ loadSegments phdrs, h.Fits then
        some ((carried prot (loadSegments phdrs)).map
            (fun x => (x.1, x.1.calls file libbase x.2)),
          lastOffset pageoffset (loadSegments phdrs))
      else none := by
  induction phdrs generalizing prot pageoffset with
  | nil =>
    rw [segmentLoop, if_pos (by simp [loadSegments])]
    rfl
  | cons h hs ih =>
    rw [segmentLoop]
    by_cases hload : h.type = .load
    · have hcons : loadSegments (h :: hs) = h :: loadSegments hs :=
        filter_cons_of_pos (by simpa using hload)
      rw [if_pos hload, hcons, segment_eq]
      by_cases hfits : h.Fits
      · simp only [if_pos hfits, Option.bind_eq_bind, Option.bind_some, ih]
        by_cases hrest : ∀ h ∈ loadSegments hs, h.Fits
        · rw [if_pos hrest, if_pos (forall_mem_cons.mpr ⟨hfits, hrest⟩)]
          rfl
        · rw [if_neg hrest, if_neg fun hall => hrest (forall_mem_cons.mp hall).2]
          rfl
      · rw [if_neg hfits, if_neg fun hall => hfits (forall_mem_cons.mp hall).1]
        rfl
    · have hskip : loadSegments (h :: hs) = loadSegments hs :=
        filter_cons_of_neg (by simpa using hload)
      rw [if_neg hload, hskip, ih]

theorem segmentLoop_eq_some {file : Nat → BitVec 8} {libbase : Nat} {phdrs : List Phdr}
    {prot : Word} {pageoffset codeEnd : Nat} {segs : List (Phdr × List PageCall)}
    (hloop : segmentLoop file libbase phdrs prot pageoffset = some (segs, codeEnd)) :
    (∀ h ∈ loadSegments phdrs, h.Fits) ∧
      segs = (carried prot (loadSegments phdrs)).map
        (fun x => (x.1, x.1.calls file libbase x.2)) ∧
      codeEnd = lastOffset pageoffset (loadSegments phdrs) := by
  rw [segmentLoop_eq] at hloop
  split at hloop
  case isTrue hfits =>
    cases hloop
    exact ⟨hfits, rfl, rfl⟩
  case isFalse => cases hloop

theorem processPages_eq_some {img : ElfImage} {heap stack : Nat} {tcsp : Int} {nssa : Nat}
    {mapHeapFirst : Bool} {run : Run}
    (hrun : processPages img heap stack tcsp nssa mapHeapFirst = some run) :
    ∃ codeEnd i entry,
      segmentLoop img.file (libBase heap mapHeapFirst) img.phdrs 0 (libBase heap mapHeapFirst) =
        some (run.segments, codeEnd) ∧
      (tcsp ≤ 0 ∨ schedTcbBaseSize + 8 * i + enclaveParmsWritten ≤ pageSize) ∧
      run.parmsOffset = 8 * i ∧
      run.nullPage = ⟨0, pageNoextend, zeroPage⟩ ∧
      run.heapFirst =
        repeatPage (if mapHeapFirst then heap else 0) pageSize heapProt zeroPage ∧
      run.heapLast = repeatPage (if mapHeapFirst then 0 else heap)
        (libBase heap mapHeapFirst + codeEnd) heapProt zeroPage ∧
      run.threads = (threadParms img heap stack tcsp nssa mapHeapFirst codeEnd i entry).threadLoop
        tcsp.toNat (toSize ((libBase heap mapHeapFirst + codeEnd : Nat) +
          pageSize * (if mapHeapFirst then 0 else heap : Nat))) fun _ => 0 := by
  unfold processPages at hrun
  obtain ⟨⟨segments, codeEnd⟩, hloop, hrun⟩ := Option.bind_eq_some_iff.mp hrun
  obtain ⟨tdata, -, hrun⟩ := Option.bind_eq_some_iff.mp hrun
  obtain ⟨i, -, hrun⟩ := Option.bind_eq_some_iff.mp hrun
  obtain ⟨⟨⟩, hguard, hrun⟩ := Option.bind_eq_some_iff.mp hrun
  obtain ⟨entry, -, hrun⟩ := Option.bind_eq_some_iff.mp hrun
  cases hrun
  exact ⟨codeEnd, i, entry, hloop, (Option.guard_eq_some' _).mp hguard, rfl, rfl, rfl,
    rfl, rfl⟩

theorem run_segments_eq {img : ElfImage} {heap : Nat} {mapHeapFirst : Bool}
    {segs : List (Phdr × List PageCall)} {codeEnd : Nat}
    (hloop : segmentLoop img.file (libBase heap mapHeapFirst) img.phdrs 0
      (libBase heap mapHeapFirst) = some (segs, codeEnd)) {stack : Nat} {tcsp : Int} {nssa : Nat} :
    ∀ run ∈ processPages img heap stack tcsp nssa mapHeapFirst, run.segments = segs := by
  intro run hrun
  obtain ⟨codeEnd, -, -, hloop', -⟩ := processPages_eq_some hrun
  rw [hloop] at hloop'
  exact (congrArg Prod.fst (Option.some.inj hloop')).symm

end RktIo.Sgx
