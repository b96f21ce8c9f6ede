import RktIo.Sgx.Segments

/-!
# Loading the library in simulation mode (`main/load_elf.c`)

`load_elf` maps the segments of the library from its file. The first mapping is as long as all
segments together, and the others are placed into it. Where a segment is longer than its part of the
file, the rest is cleared: up to the end of a page by `memset`, and from there by an anonymous
mapping.

The end of the part of the file is counted from the start of the page that the segment is mapped to,
not from the start of the segment. In a segment that starts inside a page, the last bytes of the
file part are cleared as well.

The copy of the file in which the headers are read is taken to lie apart from the image.
-/

namespace RktIo.Run

open Sgx List

/-! ## Memory -/

/-- The bytes of the address space, and which of them may be accessed. -/
structure Space where
  mem : Nat → BitVec 8
  accessible : Nat → Bool

structure MmapRequest where
  addr : Nat
  len : Nat
  fixed : Bool

/-- The addresses that the calls of `mmap` return, by their number, in agreement with POSIX; `none`
is `MAP_FAILED`. -/
structure Mmap where
  answer : Nat → MmapRequest → Option Nat
  posix : ∀ k req a, answer k req = some a →
    (req.fixed = true → a = req.addr) ∧ (req.fixed = false → a ≠ 0) ∧ a % pageSize = 0 ∧
      0 < req.len ∧ a + req.len < 2 ^ 64

structure Library where
  phdrs : List Phdr
  entry : Word
  file : Nat → BitVec 8
  size : Nat

def Library.loads (lib : Library) : List Phdr := loadSegments lib.phdrs

/-- A mapping of the file. A page that starts behind the end of the file cannot be accessed, and the
last page is filled up with zeros. -/
def Space.mapFile (s : Space) (lib : Library) (addr len offset : Nat) : Space where
  mem x :=
    if addr ≤ x ∧ x < addr + len then
      if offset + (x - addr) < lib.size then lib.file (offset + (x - addr)) else 0
    else s.mem x
  accessible x :=
    if addr ≤ x ∧ x < addr + len then
      decide ((offset + (x - addr)) / pageSize * pageSize < lib.size)
    else s.accessible x

def Space.mapAnonymous (s : Space) (addr len : Nat) : Space where
  mem x := if addr ≤ x ∧ x < addr + len then 0 else s.mem x
  accessible x := if addr ≤ x ∧ x < addr + len then true else s.accessible x

def Space.clear (s : Space) (addr n : Nat) : Option Space :=
  if (List.range n).all fun i => s.accessible (addr + i) then
    some { s with mem := fun x => if addr ≤ x ∧ x < addr + n then 0 else s.mem x }
  else none

/-! ## The function -/

def roundUp (x : Nat) : Nat := toSize (x + 4095 : Nat) / pageSize * pageSize

def alignDown (x : Nat) : Nat := x / pageSize * pageSize

structure ElfScan where
  anywhere : Bool
  segmentBase : Nat
  size : Nat

def scanPhdr (s : ElfScan) (h : Phdr) : ElfScan :=
  if h.type ≠ .load then s
  else
    let anywhere := s.anywhere || h.vaddr = 0
    let segmentBase := if !anywhere && s.segmentBase = 0 then h.vaddr.toNat else s.segmentBase
    ⟨anywhere, segmentBase, toSize (h.vaddr.toNat - segmentBase + h.memsz.toNat)⟩

/-- The variables of the second loop, with the number of calls of `mmap`. -/
structure ElfLoad where
  space : Space
  calls : Nat
  textSegment : Nat
  initialVaddr : Nat
  fixed : Bool
  entryPoint : Nat

def clearRest (mmap : Mmap) (h : Phdr) (segment mapLen calls : Nat) (s : Space) :
    Option (Space × Nat) :=
  if h.memsz ≤ h.filesz then some (s, calls)
  else do
    let brk := toSize (segment + h.filesz.toNat)
    let pgbrk := roundUp brk
    let s ← s.clear brk (toSize (pgbrk - alignDown brk))
    if toSize (pgbrk - segment) < mapLen then
      let len := toSize (segment + mapLen - pgbrk)
      let addr ← mmap.answer calls ⟨pgbrk, len, true⟩
      return (s.mapAnonymous addr len, calls + 1)
    return (s, calls)

def ElfLoad.place (s : ElfLoad) (scan : ElfScan) (baseAddr : Nat) (h : Phdr) : Nat × Bool :=
  if s.textSegment ≠ 0 ∧ scan.anywhere then
    (alignDown (toSize (s.textSegment + (h.vaddr.toNat - s.initialVaddr))), true)
  else if !scan.anywhere then (alignDown h.vaddr.toNat, s.fixed)
  else (roundUp baseAddr, s.fixed || roundUp baseAddr ≠ 0)

def ElfLoad.mapLen (s : ElfLoad) (scan : ElfScan) (h : Phdr) : Nat :=
  if s.textSegment = 0 then roundUp scan.size
  else toSize (roundUp (toSize (h.vaddr.toNat + h.memsz.toNat)) - alignDown h.vaddr.toNat)

def ElfLoad.next (s : ElfLoad) (scan : ElfScan) (h : Phdr) (segment : Nat) : ElfLoad :=
  if s.textSegment = 0 then
    { s with
      textSegment := segment
      initialVaddr := h.vaddr.toNat
      entryPoint :=
        if scan.anywhere then toSize (s.entryPoint - h.vaddr.toNat + segment) else s.entryPoint }
  else if !scan.anywhere && s.initialVaddr = 0 then { s with initialVaddr := h.vaddr.toNat }
  else s

def loadSegment (lib : Library) (mmap : Mmap) (baseAddr : Nat) (scan : ElfScan) (s : ElfLoad)
    (h : Phdr) : Option ElfLoad :=
  if h.type ≠ .load then some s
  else do
    let (mapAddr, fixed) := s.place scan baseAddr h
    let mapLen := s.mapLen scan h
    let segment ← mmap.answer s.calls ⟨mapAddr, mapLen, fixed⟩
    let space := s.space.mapFile lib segment mapLen (alignDown h.offset.toNat)
    let (space, calls) ← clearRest mmap h segment mapLen (s.calls + 1) space
    pure { s.next scan h segment with space, calls, fixed }

structure EnclMapInfo where
  base : Nat
  size : Nat
  entryPoint : Nat

/-- `load_elf`, with the address space behind it; `anywhere` is taken to be 0 at first, and
`loadSegmentsSize` is what the variable holds then. -/
def loadElf (lib : Library) (mmap : Mmap) (baseAddr loadSegmentsSize : Nat) (space : Space) :
    Option (EnclMapInfo × Space) := do
  let scan := lib.phdrs.foldl scanPhdr ⟨false, 0, loadSegmentsSize⟩
  let start : ElfLoad := ⟨space, 0, 0, 0, !scan.anywhere, lib.entry.toNat⟩
  let s ← lib.phdrs.foldlM (loadSegment lib mmap baseAddr scan) start
  return (⟨s.textSegment, scan.size, s.entryPoint⟩, s.space)

/-! ## The image -/

/-- The first segment is at 0 and the segments stand in ascending order on different pages, at the
same place in their page as in the file, in which they have no more bytes than in memory. -/
structure Library.Loadable (lib : Library) : Prop where
  first : ∃ h rest, lib.loads = h :: rest ∧ h.vaddr = 0
  ascending : lib.loads.Pairwise fun h h' => h.vaddr.toNat + h.memsz.toNat ≤ h'.start
  congruent : ∀ h ∈ lib.loads, h.offset.toNat % pageSize = h.vaddr.toNat % pageSize
  filesz_le : ∀ h ∈ lib.loads, h.filesz ≤ h.memsz
  inFile : ∀ h ∈ lib.loads, h.offset.toNat + h.filesz.toNat ≤ lib.size
  inSpace : ∀ h ∈ lib.loads, h.vaddr.toNat + h.memsz.toNat < 2 ^ 64

def ImageRight (lib : Library) (base : Nat) (space : Space) : Prop :=
  ∀ h ∈ lib.loads, ∀ k,
    (k < h.filesz.toNat → space.mem (base + h.vaddr.toNat + k) = lib.file (h.offset.toNat + k)) ∧
      (h.filesz.toNat ≤ k → k < h.memsz.toNat → space.mem (base + h.vaddr.toNat + k) = 0)

/-! ## A segment -/

variable {lib : Library} {mmap : Mmap} {h : Phdr} {segment mapLen calls calls' baseAddr base : Nat}
  {s s' : Space} {st st' : ElfLoad} {scan : ElfScan}

def Library.leaves (lib : Library) (h : Phdr) (k : Nat) : BitVec 8 :=
  if h.filesz < h.memsz ∧ h.filesz.toNat ≤ h.vaddr.toNat % pageSize + k then 0
  else lib.file (h.offset.toNat + k)

theorem roundUp_of_lt {x : Nat} (hx : x + 4095 < 2 ^ 64) :
    roundUp x = (x + 4095) / 4096 * 4096 := by
  rw [roundUp, toSize_of_lt hx]
  rfl

theorem mem_clear {addr n x : Nat} (hrun : s.clear addr n = some s') :
    s'.mem x = if addr ≤ x ∧ x < addr + n then 0 else s.mem x := by
  unfold Space.clear at hrun
  split at hrun
  · cases hrun
    rfl
  · cases hrun

/-- **Clearing the rest of a segment** clears everything in the mapping behind the file part, as
counted from the start of the page. -/
theorem clearRest_mem (hrun : clearRest mmap h segment mapLen calls s = some (s', calls'))
    (hseg : segment % pageSize = 0) (hlen : mapLen % pageSize = 0)
    (hfit : segment + mapLen < 2 ^ 64) (hmem : h.memsz.toNat ≤ mapLen) {x : Nat}
    (hx : x < segment + mapLen) :
    s'.mem x = if h.filesz < h.memsz ∧ segment + h.filesz.toNat ≤ x then 0 else s.mem x := by
  unfold clearRest at hrun
  by_cases hle : h.memsz ≤ h.filesz
  · rw [if_pos hle] at hrun
    cases hrun
    rw [if_neg fun hc => absurd hle (BitVec.not_le.mpr hc.1)]
  · rw [if_neg hle] at hrun
    have hlt : h.filesz < h.memsz := BitVec.not_le.mp hle
    have hltNat : h.filesz.toNat < h.memsz.toNat := BitVec.lt_def.mp hlt
    simp only [pageSize] at hseg hlen
    generalize hb : segment + h.filesz.toNat = brk at *
    have hbrk : toSize (segment + h.filesz.toNat) = brk := by
      rw [← hb]
      exact toSize_of_lt (by omega)
    obtain ⟨pg, hpg, hlow, hhigh, hend, hpage⟩ : ∃ pg, roundUp brk = pg ∧ brk ≤ pg ∧
        pg < brk + 4096 ∧ pg ≤ segment + mapLen ∧ pg % 4096 = 0 :=
      ⟨_, roundUp_of_lt (by omega), by omega⟩
    have hclear : brk + toSize (pg - alignDown brk) = if brk = pg then brk else brk + 4096 := by
      simp only [toSize, alignDown, pageSize]
      split <;> omega
    have hoff : toSize (pg - segment) = pg - segment := by
      simp only [toSize]
      omega
    have hrest : pg + toSize (segment + mapLen - pg) = segment + mapLen := by
      simp only [toSize]
      omega
    simp only [hbrk, hpg, Option.bind_eq_bind, Option.bind_eq_some_iff, hoff] at hrun
    obtain ⟨s₁, hclr, hrun⟩ := hrun
    have hmem₁ := @mem_clear s s₁ _ _ x hclr
    rw [hclear] at hmem₁
    split at hrun
    case isTrue hanon =>
      obtain ⟨addr, haddr, hrun⟩ := Option.bind_eq_some_iff.mp hrun
      obtain rfl : addr = pg := (mmap.posix _ _ _ haddr).1 rfl
      cases hrun
      show (if addr ≤ x ∧ x < addr + _ then 0 else s₁.mem x) = _
      rw [hrest, hmem₁]
      grind
    case isFalse hanon =>
      cases hrun
      rw [hmem₁]
      grind

structure Library.Fits (lib : Library) (h : Phdr) : Prop where
  congruent : h.offset.toNat % pageSize = h.vaddr.toNat % pageSize
  filesz_le : h.filesz.toNat ≤ h.memsz.toNat
  inFile : h.offset.toNat + h.filesz.toNat ≤ lib.size

/-- **A segment in memory**, wherever its page is mapped; nothing in front of it is touched. -/
theorem segment_mem (hfits : lib.Fits h)
    (hrun : clearRest mmap h segment mapLen calls
      (s.mapFile lib segment mapLen (alignDown h.offset.toNat)) = some (s', calls'))
    (hseg : segment % pageSize = 0) (hlen : mapLen % pageSize = 0)
    (hfit : segment + mapLen < 2 ^ 64) (hmem : h.vaddr.toNat % pageSize + h.memsz.toNat ≤ mapLen) :
    (∀ x < segment, s'.mem x = s.mem x) ∧
      ∀ k < h.memsz.toNat,
        s'.mem (segment + h.vaddr.toNat % pageSize + k) = lib.leaves h k := by
  obtain ⟨hcong, hle, hfile⟩ := hfits
  have hclear (x : Nat) := @clearRest_mem mmap h segment mapLen calls calls'
    (s.mapFile lib segment mapLen (alignDown h.offset.toNat)) s' hrun hseg hlen hfit (by omega) x
  constructor
  · intro x hx
    rw [hclear x (by omega), if_neg (by omega), Space.mapFile]
    exact if_neg (by omega)
  · intro k hk
    rw [hclear _ (by omega), Library.leaves]
    have hiff : segment + h.filesz.toNat ≤ segment + h.vaddr.toNat % pageSize + k
        ↔ h.filesz.toNat ≤ h.vaddr.toNat % pageSize + k := by omega
    simp only [hiff]
    split
    · rfl
    case isFalse hnot =>
      have hin : k < h.filesz.toNat := by
        rw [BitVec.lt_def] at hnot
        omega
      have hoff : alignDown h.offset.toNat + (segment + h.vaddr.toNat % pageSize + k - segment)
          = h.offset.toNat + k := by
        simp only [alignDown, pageSize] at hcong ⊢
        omega
      show (if _ then _ else _) = _
      rw [if_pos (by omega), hoff, if_pos (by omega)]

/-! ## The loop -/

theorem loadSegment_eq_some (htype : h.type = .load)
    (hrun : loadSegment lib mmap baseAddr scan st h = some st') :
    ∃ segment space, mmap.answer st.calls
          ⟨(st.place scan baseAddr h).1, st.mapLen scan h, (st.place scan baseAddr h).2⟩
        = some segment
      ∧ clearRest mmap h segment (st.mapLen scan h) (st.calls + 1)
          (st.space.mapFile lib segment (st.mapLen scan h) (alignDown h.offset.toNat))
        = some (space, st'.calls)
      ∧ st'.space = space ∧ st'.textSegment = (st.next scan h segment).textSegment
      ∧ st'.initialVaddr = (st.next scan h segment).initialVaddr := by
  rw [loadSegment, if_neg (not_not.mpr htype)] at hrun
  obtain ⟨segment, hanswer, hrun⟩ := Option.bind_eq_some_iff.mp hrun
  obtain ⟨⟨space, calls⟩, hclear, hrun⟩ := Option.bind_eq_some_iff.mp hrun
  cases hrun
  exact ⟨segment, space, hanswer, hclear, rfl, rfl, rfl⟩

/-- The text segment is mapped at `base`, so that addresses are relative to it. -/
structure ElfLoad.At (st : ElfLoad) (base : Nat) : Prop where
  textSegment : st.textSegment = base
  initialVaddr : st.initialVaddr = 0
  base_ne : base ≠ 0
  base_page : base % pageSize = 0

/-- **A later segment** is mapped at its place behind the text segment. -/
theorem loadSegment_later (htype : h.type = .load) (hfits : lib.Fits h) (hat : st.At base)
    (hany : scan.anywhere = true) (hend : base + (h.vaddr.toNat + h.memsz.toNat) < 2 ^ 64)
    (hrun : loadSegment lib mmap baseAddr scan st h = some st') :
    st'.At base ∧ (∀ x < base + h.start, st'.space.mem x = st.space.mem x) ∧
      ∀ k < h.memsz.toNat, st'.space.mem (base + h.vaddr.toNat + k) = lib.leaves h k := by
  obtain ⟨htext, hinitial, hne, hpage⟩ := hat
  obtain ⟨segment, space, hanswer, hclear, hspace, htext', hinitial'⟩ :=
    loadSegment_eq_some htype hrun
  have hnext : st.next scan h segment = st := by
    rw [ElfLoad.next, htext, if_neg hne, hany]
    rfl
  rw [hnext] at htext' hinitial'
  simp only [pageSize] at hpage
  have hplace : st.place scan baseAddr h = (base + h.start, true) := by
    rw [ElfLoad.place, htext, hinitial, if_pos ⟨hne, hany⟩]
    simp only [alignDown, toSize, Phdr.start, pageSize, Prod.mk.injEq, and_true]
    omega
  have hlen : st.mapLen scan h
      = (h.vaddr.toNat + h.memsz.toNat + 4095) / 4096 * 4096 - h.start := by
    rw [ElfLoad.mapLen, htext, if_neg hne]
    have hsum : toSize (h.vaddr.toNat + h.memsz.toNat) = h.vaddr.toNat + h.memsz.toNat :=
      toSize_of_lt (by omega)
    rw [hsum, roundUp_of_lt (by omega)]
    simp only [alignDown, toSize, Phdr.start, pageSize]
    omega
  rw [hplace, hlen] at hanswer
  rw [hlen] at hclear
  obtain rfl : segment = base + h.start := (mmap.posix _ _ _ hanswer).1 rfl
  have hstart : h.start + h.vaddr.toNat % 4096 = h.vaddr.toNat := by
    simp only [Phdr.start, pageSize]
    omega
  obtain ⟨hframe, hcontent⟩ := segment_mem hfits hclear (by simp only [Phdr.start, pageSize]; omega)
    (by simp only [Phdr.start, pageSize]; omega) (mmap.posix _ _ _ hanswer).2.2.2.2
    (by simp only [pageSize]; omega)
  refine ⟨⟨htext'.trans htext, hinitial'.trans hinitial, hne, hpage⟩, ?_, ?_⟩
  · rw [hspace]
    exact hframe
  · intro k hk
    have haddr : base + h.start + h.vaddr.toNat % pageSize + k = base + h.vaddr.toNat + k := by
      simp only [pageSize]
      omega
    rw [hspace, ← haddr]
    exact hcontent k hk

/-- **The first segment** is at the start of a mapping with room for `scan.size` bytes. -/
theorem loadSegment_first (htype : h.type = .load) (hfits : lib.Fits h) (hvaddr : h.vaddr = 0)
    (htext : st.textSegment = 0) (hfixed : st.fixed = false) (hany : scan.anywhere = true)
    (hsize : scan.size < 2 ^ 64) (hmem : h.memsz.toNat ≤ scan.size)
    (hrun : loadSegment lib mmap baseAddr scan st h = some st') :
    ∃ base, st'.At base ∧ base + scan.size < 2 ^ 64 ∧
      ∀ k < h.memsz.toNat, st'.space.mem (base + h.vaddr.toNat + k) = lib.leaves h k := by
  obtain ⟨base, space, hanswer, hclear, hspace, htext', hinitial'⟩ :=
    loadSegment_eq_some htype hrun
  have hzero : h.vaddr.toNat = 0 := by rw [hvaddr]; rfl
  have hlen : st.mapLen scan h = roundUp scan.size := if_pos htext
  have hplace : st.place scan baseAddr h = (roundUp baseAddr, decide (roundUp baseAddr ≠ 0)) := by
    simp [ElfLoad.place, htext, hany, hfixed]
  rw [hlen, hplace] at hanswer
  rw [hlen] at hclear
  obtain ⟨hgiven, hchosen, hpage, hpos, hfit⟩ := mmap.posix _ _ _ hanswer
  dsimp only at hgiven hchosen hpos hfit
  have hne : base ≠ 0 := by
    by_cases hbase : roundUp baseAddr = 0
    · exact hchosen (by simp [hbase])
    · rw [hgiven (by simp [hbase])]
      exact hbase
  have hround : roundUp scan.size = (scan.size + 4095) / 4096 * 4096 := by
    refine roundUp_of_lt (lt_of_not_ge fun hge => ?_)
    simp only [roundUp, toSize, pageSize] at hpos
    omega
  rw [hround] at hclear hfit
  obtain ⟨-, hcontent⟩ := segment_mem hfits hclear hpage (Nat.mul_mod_left _ _) hfit
    (by rw [hzero, Nat.zero_mod]; omega)
  rw [ElfLoad.next, if_pos htext] at htext' hinitial'
  refine ⟨base, ⟨htext', hinitial'.trans hzero, hne, hpage⟩, by omega, ?_⟩
  intro k hk
  have hcontent := hcontent k hk
  rw [hzero] at hcontent ⊢
  rw [hspace]
  exact hcontent

theorem foldlM_loadSegment (phdrs : List Phdr) (hat : st.At base) (hany : scan.anywhere = true)
    (hfits : ∀ h ∈ loadSegments phdrs, lib.Fits h)
    (hend : ∀ h ∈ loadSegments phdrs, base + (h.vaddr.toNat + h.memsz.toNat) < 2 ^ 64)
    (hasc : (loadSegments phdrs).Pairwise fun h h' => h.vaddr.toNat + h.memsz.toNat ≤ h'.start)
    (hrun : phdrs.foldlM (loadSegment lib mmap baseAddr scan) st = some st') :
    st'.textSegment = base ∧
      (∀ x, (∀ h ∈ loadSegments phdrs, x < base + h.start) → st'.space.mem x = st.space.mem x) ∧
      ∀ h ∈ loadSegments phdrs, ∀ k < h.memsz.toNat,
        st'.space.mem (base + h.vaddr.toNat + k) = lib.leaves h k := by
  induction phdrs generalizing st with
  | nil =>
    cases hrun
    exact ⟨hat.textSegment, fun _ _ => rfl, fun h hh => absurd hh not_mem_nil⟩
  | cons h phdrs ih =>
    rw [foldlM_cons] at hrun
    obtain ⟨st₁, hfirst, hrest⟩ := Option.bind_eq_some_iff.mp hrun
    by_cases htype : h.type = .load
    · have hloads : loadSegments (h :: phdrs) = h :: loadSegments phdrs :=
        filter_cons_of_pos (by simpa using htype)
      rw [hloads] at hfits hend hasc ⊢
      rw [forall_mem_cons] at hfits hend
      obtain ⟨hbelow, hasc⟩ := pairwise_cons.mp hasc
      obtain ⟨hat₁, hframe₁, hcontent₁⟩ :=
        loadSegment_later htype hfits.1 hat hany hend.1 hfirst
      obtain ⟨htext, hframe, hcontent⟩ := ih hat₁ hfits.2 hend.2 hasc hrest
      refine ⟨htext, ?_, ?_⟩
      · intro x hx
        rw [forall_mem_cons] at hx
        rw [hframe x hx.2, hframe₁ x hx.1]
      · rw [forall_mem_cons]
        refine ⟨fun k hk => ?_, hcontent⟩
        rw [hframe _ fun h' hh' => ?_, hcontent₁ k hk]
        have hle := hbelow h' hh'
        omega
    · have hloads : loadSegments (h :: phdrs) = loadSegments phdrs :=
        filter_cons_of_neg (by simpa using htype)
      rw [loadSegment, if_pos htype] at hfirst
      cases hfirst
      rw [hloads] at hfits hend hasc ⊢
      exact ih hat hfits hend hasc hrest

theorem foldl_scanPhdr (phdrs : List Phdr) {size : Nat} (hsize : size < 2 ^ 64)
    (hspace : ∀ h ∈ loadSegments phdrs, h.vaddr.toNat + h.memsz.toNat < 2 ^ 64)
    (hlow : ∀ h ∈ loadSegments phdrs, size ≤ h.start)
    (hasc : (loadSegments phdrs).Pairwise fun h h' => h.vaddr.toNat + h.memsz.toNat ≤ h'.start) :
    (phdrs.foldl scanPhdr ⟨true, 0, size⟩).anywhere = true ∧
      (phdrs.foldl scanPhdr ⟨true, 0, size⟩).size < 2 ^ 64 ∧
      size ≤ (phdrs.foldl scanPhdr ⟨true, 0, size⟩).size ∧
      ∀ h ∈ loadSegments phdrs,
        h.vaddr.toNat + h.memsz.toNat ≤ (phdrs.foldl scanPhdr ⟨true, 0, size⟩).size := by
  induction phdrs generalizing size with
  | nil => exact ⟨rfl, hsize, le_rfl, fun h hh => absurd hh not_mem_nil⟩
  | cons h phdrs ih =>
    rw [foldl_cons]
    by_cases htype : h.type = .load
    · have hloads : loadSegments (h :: phdrs) = h :: loadSegments phdrs :=
        filter_cons_of_pos (by simpa using htype)
      rw [hloads, forall_mem_cons] at hspace hlow
      rw [hloads] at hasc ⊢
      obtain ⟨hbelow, hasc⟩ := pairwise_cons.mp hasc
      have hscan : scanPhdr ⟨true, 0, size⟩ h
          = ⟨true, 0, h.vaddr.toNat + h.memsz.toNat⟩ := by
        have hsum : toSize (h.vaddr.toNat + h.memsz.toNat) = h.vaddr.toNat + h.memsz.toNat :=
          toSize_of_lt hspace.1
        simp [scanPhdr, htype, hsum]
      obtain ⟨hany, hlt, hle, hall⟩ := ih hspace.1 hspace.2 hbelow hasc
      have hstart : h.start ≤ h.vaddr.toNat := Nat.div_mul_le_self _ _
      rw [hscan, forall_mem_cons]
      exact ⟨hany, hlt, by omega, hle, hall⟩
    · have hloads : loadSegments (h :: phdrs) = loadSegments phdrs :=
        filter_cons_of_neg (by simpa using htype)
      rw [hloads] at hspace hlow hasc ⊢
      rw [scanPhdr, if_pos htype]
      exact ih hsize hspace hlow hasc

theorem foldl_scanPhdr_skip {pre : List Phdr} (hpre : ∀ h ∈ pre, h.type ≠ .load) :
    pre.foldl scanPhdr scan = scan := by
  induction pre with
  | nil => rfl
  | cons h pre ih =>
    obtain ⟨htype, hpre⟩ := forall_mem_cons.mp hpre
    rw [foldl_cons, scanPhdr, if_pos htype, ih hpre]

theorem foldlM_loadSegment_skip {pre : List Phdr} (hpre : ∀ h ∈ pre, h.type ≠ .load) :
    pre.foldlM (loadSegment lib mmap baseAddr scan) st = some st := by
  induction pre with
  | nil => rfl
  | cons h pre ih =>
    obtain ⟨htype, hpre⟩ := forall_mem_cons.mp hpre
    rw [foldlM_cons, loadSegment, if_pos htype]
    exact ih hpre

/-! ## The image -/

theorem Library.Loadable.fits (hlib : lib.Loadable) (hh : h ∈ lib.loads) : lib.Fits h :=
  ⟨hlib.congruent h hh, BitVec.le_def.mp (hlib.filesz_le h hh), hlib.inFile h hh⟩

/-- **What `load_elf` leaves.** -/
theorem loadElf_mem (hlib : lib.Loadable) {loadSegmentsSize : Nat} {info : EnclMapInfo}
    (hrun : loadElf lib mmap baseAddr loadSegmentsSize s = some (info, s')) :
    ∀ h ∈ lib.loads, ∀ k < h.memsz.toNat,
      s'.mem (info.base + h.vaddr.toNat + k) = lib.leaves h k := by
  obtain ⟨first, rest, hloads, hvaddr⟩ := hlib.first
  have hasc := hlib.ascending
  have hfits := fun h => @Library.Loadable.fits lib h hlib
  have hspace := hlib.inSpace
  rw [hloads] at hasc hfits hspace ⊢
  rw [forall_mem_cons] at hfits hspace
  obtain ⟨hbelow, hasc⟩ := pairwise_cons.mp hasc
  obtain ⟨pre, post, hphdrs, hpre, hload, rfl⟩ := filter_eq_cons_iff.mp hloads
  have hpre : ∀ h ∈ pre, h.type ≠ .load := by simpa using hpre
  have htype : first.type = .load := by simpa using hload
  have hzero : first.vaddr.toNat = 0 := by
    rw [hvaddr]
    rfl
  rw [hzero, Nat.zero_add] at hspace
  simp only [hzero, Nat.zero_add] at hbelow
  have hsize : toSize (first.memsz.toNat) = first.memsz.toNat := toSize_of_lt hspace.1
  have hscan : lib.phdrs.foldl scanPhdr ⟨false, 0, loadSegmentsSize⟩
      = post.foldl scanPhdr ⟨true, 0, first.memsz.toNat⟩ := by
    rw [hphdrs, foldl_append, foldl_scanPhdr_skip hpre, foldl_cons]
    simp [scanPhdr, htype, hvaddr, hsize]
  obtain ⟨hany, hlt, hle, hall⟩ := foldl_scanPhdr post hspace.1 hspace.2 hbelow hasc
  rw [← hscan] at hany hlt hle hall
  simp only [loadElf, Option.bind_eq_bind] at hrun
  obtain ⟨st', hloop, hrun⟩ := Option.bind_eq_some_iff.mp hrun
  cases hrun
  rw [hphdrs, foldlM_append, foldlM_loadSegment_skip hpre, Option.bind_eq_bind,
    Option.bind_some, foldlM_cons, ← hphdrs] at hloop
  obtain ⟨st₁, hfirst, hrest⟩ := Option.bind_eq_some_iff.mp hloop
  obtain ⟨base, hat, hbase, hcontent⟩ := loadSegment_first htype hfits.1 hvaddr rfl
    (by rw [hany]; rfl) hany hlt hle hfirst
  have hend : ∀ h ∈ loadSegments post, base + (h.vaddr.toNat + h.memsz.toNat) < 2 ^ 64 :=
    fun h hh => by have := hall h hh; omega
  obtain ⟨htext, hframe, hcontents⟩ :=
    foldlM_loadSegment post hat hany hfits.2 hend hasc hrest
  rw [forall_mem_cons, htext]
  refine ⟨fun k hk => ?_, hcontents⟩
  dsimp only
  rw [hframe _ fun h hh => ?_, hcontent k hk]
  have hle := hbelow h hh
  omega

def Library.TailsZero (lib : Library) : Prop :=
  ∀ h ∈ lib.loads, h.filesz < h.memsz → ∀ k < h.filesz.toNat,
    h.filesz.toNat ≤ h.vaddr.toNat % pageSize + k → lib.file (h.offset.toNat + k) = 0

/-- **The image is right** exactly if no byte is lost where a segment starts inside a page and is
longer than its part of the file: the last bytes of the file part, as many as the segment is behind
the start of the page, are 0. -/
theorem image_right_iff (lib : Library) (hlib : lib.Loadable) (mmap : Mmap)
    (baseAddr loadSegmentsSize : Nat) (s s' : Space) (info : EnclMapInfo)
    (hrun : loadElf lib mmap baseAddr loadSegmentsSize s = some (info, s')) :
    ImageRight lib info.base s' ↔ lib.TailsZero := by
  have hmem := loadElf_mem hlib hrun
  constructor
  · intro hright h hh hlt k hk hearly
    have hle : h.filesz.toNat < h.memsz.toNat := BitVec.lt_def.mp hlt
    rw [← (hright h hh k).1 hk, hmem h hh k (by omega), Library.leaves, if_pos ⟨hlt, hearly⟩]
  · intro htails h hh k
    have hle : h.filesz.toNat ≤ h.memsz.toNat := BitVec.le_def.mp (hlib.filesz_le h hh)
    constructor
    · intro hk
      rw [hmem h hh k (by omega), Library.leaves]
      split
      case isTrue hearly => exact (htails h hh hearly.1 k hk hearly.2).symm
      case isFalse => rfl
    · intro hk hk'
      rw [hmem h hh k hk', Library.leaves, if_pos ⟨BitVec.lt_def.mpr (by omega), by omega⟩]

def mmapAtFree : Mmap where
  answer _ req :=
    let a := if req.fixed then req.addr else 0x10000
    if a % pageSize = 0 ∧ 0 < req.len ∧ a + req.len < 2 ^ 64 then some a else none
  posix k req a hanswer := by
    obtain ⟨hok, heq⟩ := Option.ite_none_right_eq_some.mp hanswer
    obtain rfl := Option.some.inj heq
    exact ⟨fun hfixed => if_pos hfixed, fun hfixed => by simp [hfixed], hok⟩

/-- Two segments with 4096 bytes of the file each, all of them 1. The second one is `d` bytes behind
the start of its page and 32 bytes longer than its part of the file. -/
def twoSegments (d : Word) : Library where
  phdrs := [⟨.load, 5, 0, 0, 0x1000, 0x1000⟩, ⟨.load, 6, 0x1000 + d, 0x1000 + d, 0x1000, 0x1020⟩]
  entry := 0
  file _ := 1
  size := 0x3000

def loadTwo (d : Word) : Option (EnclMapInfo × Space) :=
  loadElf (twoSegments d) mmapAtFree 0 0 ⟨fun _ => 0, fun _ => false⟩

theorem image_right_iff_two : ∃ r, loadTwo 0 = some r ∧
    (ImageRight (twoSegments 0) r.1.base r.2 ↔ (twoSegments 0).TailsZero) := by
  obtain ⟨r, hrun⟩ := Option.isSome_iff_exists.mp (show (loadTwo 0).isSome by decide)
  have hlib : (twoSegments 0).Loadable :=
    ⟨⟨_, _, rfl, rfl⟩, by decide, by decide, by decide, by decide, by decide⟩
  exact ⟨r, hrun, image_right_iff _ hlib _ _ _ _ _ _ hrun⟩

/-- The last sixteen bytes that the second segment has in the file are 0 in memory. -/
theorem last_bytes_cleared : (twoSegments 0x10).Loadable ∧ ∃ r, loadTwo 0x10 = some r ∧
    ¬ ImageRight (twoSegments 0x10) r.1.base r.2 := by
  refine ⟨⟨⟨_, _, rfl, rfl⟩, by decide, by decide, by decide, by decide, by decide⟩,
    _, rfl, fun hright => ?_⟩
  have hbyte := (hright ⟨.load, 6, 0x1010, 0x1010, 0x1000, 0x1020⟩ (by decide) 0xff0).1 (by decide)
  exact absurd hbyte (by decide)

end RktIo.Run
