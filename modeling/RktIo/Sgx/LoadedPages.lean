import RktIo.Sgx.Segments

/-!
# Loaded segments (`sgx/sgx.c`)

Every page that a segment meets has to be handed to `process_page` once, with the bytes of the
file and zeros behind them. For a segment that starts within a page and whose file part ends in
that page, `process_pages` counts the whole page as filled, the part in front of the segment
included, and may stop one page short.

## The architecture

* `Phdr.OnPage`, `Phdr.span` — the pages that a segment meets;
* `Phdr.span_le_count_iff` — when all of them are processed;
* `loopCalls_nodup`, `eq_call_of_offset` — segments on different pages do not interfere.
-/

namespace RktIo.Sgx

open List Phdr

/-! ## What has to be loaded -/

def Phdr.OnPage (h : Phdr) (q : Nat) : Prop :=
  ∃ k < h.memsz.toNat, (h.vaddr.toNat + k) / pageSize = q

def Phdr.span (h : Phdr) : Nat :=
  if h.memsz.toNat = 0 then 0 else (h.skew + h.memsz.toNat + (pageSize - 1)) / pageSize

variable {h : Phdr} {prot : Word}

theorem Phdr.onPage_iff {q : Nat} : h.OnPage q ↔ ∃ k < h.span, h.firstPage + k = q := by
  have hv := h.vaddr_eq
  have hskew := h.skew_lt
  unfold Phdr.OnPage span
  rw [pageSize] at *
  constructor
  · rintro ⟨k, hk, rfl⟩
    refine ⟨(h.skew + k) / 4096, ?_, ?_⟩
    · rw [if_neg] <;> omega
    · omega
  · rintro ⟨k, hk, rfl⟩
    split at hk
    case isTrue => omega
    case isFalse hpos =>
      refine ⟨4096 * k - h.skew, ?_, ?_⟩ <;> omega

theorem Phdr.count_eq (hle : h.filesz.toNat ≤ h.memsz.toNat) (hlt : h.memsz.toNat < 2 ^ 31) :
    h.count = h.fileCount +
      (h.memsz.toNat - h.filesz.toNat - h.memRead + (pageSize - 1)) / pageSize := by
  have hread : h.memRead ≤ pageSize := by
    unfold memRead
    split <;> omega
  obtain ⟨rest, hrest⟩ : ∃ rest : Int, rest = h.memsz.toNat - h.filesz.toNat - h.memRead :=
    ⟨_, rfl⟩
  have hint : toInt32 (toSize rest) = rest := by
    rw [toSize_cast, toInt32_eq]
    rw [pageSize] at hread
    split <;> omega
  rw [count, ← hrest, hint]
  by_cases hpos : 0 ≤ rest
  · lift rest to Nat using hpos
    have hnat : rest = h.memsz.toNat - h.filesz.toNat - h.memRead := by omega
    rw [zeroPages_natCast, hnat]
  · rw [zeroPages_of_nonpos (by omega), pageSize]
    omega

/-- The copy of a short file part to the first page is counted as if it started at the page
boundary. Nothing is missed if that does not matter. -/
def Phdr.NoGap (h : Phdr) : Prop :=
  h.skew = 0 ∨ pageSize ≤ h.skew + h.filesz.toNat ∨ h.memsz.toNat = 0 ∨
    h.skew + (h.memsz.toNat - 1) % pageSize < pageSize

section

variable (hle : h.filesz.toNat ≤ h.memsz.toNat) (hlt : h.memsz.toNat < 2 ^ 31)

include hle hlt

theorem Phdr.count_le_span : h.count ≤ h.span := by
  have hskew := h.skew_lt
  rw [count_eq hle hlt]
  unfold fileCount memRead span remaining fileRead fullCount
  rw [pageSize] at *
  split <;> split <;> split <;> omega

theorem Phdr.span_le_count_iff : h.span ≤ h.count ↔ h.NoGap := by
  have hskew := h.skew_lt
  rw [count_eq hle hlt]
  unfold Phdr.NoGap fileCount memRead span remaining fileRead
    fullCount
  rw [pageSize] at *
  split <;> split <;> split <;> omega


end

/-! ## Every page once -/

def Phdr.Apart (h h' : Phdr) : Prop :=
  ∀ q q' : Nat, h.OnPage q → h'.OnPage q' → toSize (pageSize * q) ≠ toSize (pageSize * q')

instance : Std.Symm Phdr.Apart where
  symm _ _ hne q q' hq hq' heq := hne q' q hq' hq heq.symm

def PagesDisjoint (hs : List Phdr) : Prop := hs.Pairwise Phdr.Apart

def PageCall.byteAt (c : PageCall) (a : Nat) : BitVec 8 :=
  c.page ⟨a % pageSize, Nat.mod_lt a (by decide)⟩

/-- The calls load the segment: each of its pages is processed exactly once, with the bytes of
the file and zeros behind them. -/
def Phdr.Loaded (file : Nat → BitVec 8) (libbase : Nat) (calls : List PageCall) (h : Phdr) :
    Prop :=
  ∀ q, h.OnPage q →
    (calls.map PageCall.offset).count (toSize (libbase + pageSize * q)) = 1 ∧
    ∀ c ∈ calls, c.offset = toSize (libbase + pageSize * q) →
      ∀ k < h.memsz.toNat, (h.vaddr.toNat + k) / pageSize = q →
        c.byteAt (h.vaddr.toNat + k) =
          if k < h.filesz.toNat then file (h.offset.toNat + k) else 0

theorem toSize_add_cancel {libbase : Nat} {x y : Int}
    (heq : toSize (libbase + x) = toSize (libbase + y)) : toSize x = toSize y := by
  unfold toSize at *
  omega

section Once

variable {file : Nat → BitVec 8} {libbase : Nat} {hs : List Phdr}

def loopCalls (file : Nat → BitVec 8) (libbase : Nat) (prot : Word) (hs : List Phdr) :
    List PageCall :=
  (carried prot hs).flatMap fun x => x.1.calls file libbase x.2

theorem flatMap_calls (prot : Word) :
    ((carried prot hs).map fun x => (x.1, x.1.calls file libbase x.2)).flatMap (·.2) =
      loopCalls file libbase prot hs := by
  simp only [loopCalls, flatMap_map]

theorem mem_loopCalls {c : PageCall} (hc : c ∈ loopCalls file libbase prot hs) :
    ∃ h ∈ hs, ∃ prot', ∃ k < h.count, c = h.call file libbase prot' k := by
  induction hs generalizing prot with
  | nil => simp [loopCalls, carried] at hc
  | cons h hs ih =>
    rw [loopCalls, carried, flatMap_cons, mem_append] at hc
    rcases hc with hc | hc
    · obtain ⟨k, hk, rfl⟩ := mem_map.mp hc
      exact ⟨h, mem_cons_self, h.addProt prot, k, mem_range.mp hk, rfl⟩
    · obtain ⟨h', hh', hrest⟩ := ih hc
      exact ⟨h', mem_cons_of_mem h hh', hrest⟩

theorem call_mem_loopCalls (file : Nat → BitVec 8) (libbase : Nat) (prot : Word) (hh : h ∈ hs)
    {k : Nat} (hk : k < h.count) :
    ∃ prot', h.call file libbase prot' k ∈ loopCalls file libbase prot hs := by
  induction hs generalizing prot with
  | nil => simp at hh
  | cons h' hs ih =>
    rw [loopCalls, carried, flatMap_cons]
    rcases mem_cons.mp hh with rfl | hh
    · refine ⟨h.addProt prot, mem_append_left _ ?_⟩
      exact mem_map_of_mem (mem_range.mpr hk)
    · obtain ⟨prot', hmem⟩ := ih (h'.addProt prot) hh
      exact ⟨prot', mem_append_right _ hmem⟩

theorem Phdr.page_inj (hlt : h.memsz.toNat < 2 ^ 31) {k k' : Nat} (hk : k < h.span)
    (hk' : k' < h.span) (heq : toSize (pageSize * (h.firstPage + k : Nat)) =
      toSize (pageSize * (h.firstPage + k' : Nat))) : k = k' := by
  have hspan : h.span < 2 ^ 32 := by
    have hskew := h.skew_lt
    unfold span
    rw [pageSize] at *
    split <;> omega
  unfold toSize at heq
  rw [pageSize] at heq
  omega

variable (hsize : ∀ h ∈ hs, h.filesz.toNat ≤ h.memsz.toNat ∧ h.memsz.toNat < 2 ^ 31)

include hsize

theorem Phdr.onPage_of_lt_count (hh : h ∈ hs) {k : Nat} (hk : k < h.count) :
    h.OnPage (h.firstPage + k) := by
  obtain ⟨hle, hlt⟩ := hsize h hh
  exact onPage_iff.mpr ⟨k, Nat.lt_of_lt_of_le hk (count_le_span hle hlt), rfl⟩

variable (hdisj : PagesDisjoint hs)

include hdisj

theorem loopCalls_nodup : ((loopCalls file libbase prot hs).map PageCall.offset).Nodup := by
  induction hs generalizing prot with
  | nil => simp [loopCalls, carried]
  | cons h hs ih =>
    obtain ⟨hhead, htail⟩ := pairwise_cons.mp hdisj
    obtain ⟨hle, hlt⟩ := hsize h mem_cons_self
    have hspan := count_le_span hle hlt
    rw [loopCalls, carried, flatMap_cons, map_append]
    refine List.Nodup.append ?_ (ih (fun h' hh' => hsize h' (mem_cons_of_mem h hh')) htail) ?_
    · rw [calls, map_map]
      refine List.Nodup.map_on ?_ nodup_range
      intro k hk k' hk' heq
      exact page_inj hlt (by grind) (by grind) (toSize_add_cancel heq)
    · -- a page of the first segment is not on a page of the others
      intro o ho ho'
      obtain ⟨c, hc, rfl⟩ := mem_map.mp ho
      obtain ⟨c', hc', heq⟩ := mem_map.mp ho'
      obtain ⟨k, hk, rfl⟩ := mem_map.mp hc
      obtain ⟨h', hh', prot', k', hk', rfl⟩ := mem_loopCalls hc'
      have hpage : toSize (pageSize * (h'.firstPage + k' : Nat)) =
          toSize (pageSize * (h.firstPage + k : Nat)) := toSize_add_cancel heq
      exact hhead h' hh' _ _
        (onPage_of_lt_count hsize mem_cons_self (mem_range.mp hk))
        (onPage_of_lt_count hsize (mem_cons_of_mem h hh') hk') hpage.symm

theorem eq_call_of_offset (hh : h ∈ hs) {q : Nat} (hq : h.OnPage q) {c : PageCall}
    (hc : c ∈ loopCalls file libbase prot hs) (hoff : c.offset = toSize (libbase + pageSize * q)) :
    ∃ prot', ∃ k < h.count, h.firstPage + k = q ∧ c = h.call file libbase prot' k := by
  obtain ⟨h', hh', prot', k', hk', rfl⟩ := mem_loopCalls hc
  have hpage : toSize (pageSize * (h'.firstPage + k' : Nat)) = toSize (pageSize * q) :=
    toSize_add_cancel hoff
  have hq' := onPage_of_lt_count hsize hh' hk'
  by_cases hsame : h' = h
  · subst hsame
    obtain ⟨hle, hlt⟩ := hsize h' hh
    obtain ⟨k, hk, rfl⟩ := onPage_iff.mp hq
    have hspan := count_le_span hle hlt
    have hkk := page_inj hlt (by omega) hk hpage
    exact ⟨prot', k', hk', by rw [hkk], rfl⟩
  · exact absurd hpage (List.Pairwise.forall hdisj hh' hh hsame _ _ hq' hq)

theorem loaded_iff (hh : h ∈ hs) :
    h.Loaded file libbase (loopCalls file libbase prot hs) ↔ h.NoGap := by
  obtain ⟨hle, hlt⟩ := hsize h hh
  rw [← span_le_count_iff hle hlt]
  constructor
  · intro hloaded
    by_contra hgap
    -- the page behind the last one that is processed
    have hq : h.OnPage (h.firstPage + h.count) := onPage_iff.mpr ⟨h.count, by omega, rfl⟩
    have hmem : _ ∈ (loopCalls file libbase prot hs).map PageCall.offset :=
      count_pos_iff.mp (by rw [(hloaded _ hq).1]; decide)
    obtain ⟨c, hc, hoff⟩ := mem_map.mp hmem
    obtain ⟨-, k, hk, heq, -⟩ := eq_call_of_offset hsize hdisj hh hq hc hoff
    omega
  · intro hcount q hq
    refine ⟨?_, ?_⟩
    · apply count_eq_one_of_mem (loopCalls_nodup hsize hdisj)
      obtain ⟨k, hk, rfl⟩ := onPage_iff.mp hq
      obtain ⟨prot', hmem⟩ :=
        call_mem_loopCalls file libbase prot hh (Nat.lt_of_lt_of_le hk hcount)
      exact mem_map.mpr ⟨_, hmem, rfl⟩
    · intro c hc hoff k hk hpage
      obtain ⟨prot', k', hk', rfl, rfl⟩ := eq_call_of_offset hsize hdisj hh hq hc hoff
      show h.content file (pageSize * (h.firstPage + k') + (h.vaddr.toNat + k) % pageSize) = _
      rw [← hpage, Nat.div_add_mod, content]
      simp

end Once

/-- What holds of every library whose segments lie on different pages: all of its pages are
processed as they should be if no segment leaves a gap, and only then. -/
theorem segments_loaded_iff (img : ElfImage) (heap stack : Nat) (tcsp : Int) (nssa : Nat)
    (mapHeapFirst : Bool) (hdisj : PagesDisjoint img.loads)
    (hsize : ∀ h ∈ img.loads, h.filesz.toNat ≤ h.memsz.toNat ∧ h.memsz.toNat < 2 ^ 31) :
    ∃ segs codeEnd,
      segmentLoop img.file (libBase heap mapHeapFirst) img.phdrs 0 (libBase heap mapHeapFirst) =
        some (segs, codeEnd) ∧
      (∀ run ∈ processPages img heap stack tcsp nssa mapHeapFirst, run.segments = segs) ∧
      ((∀ h ∈ img.loads,
          h.Loaded img.file (libBase heap mapHeapFirst) (segs.flatMap (·.2))) ↔
        ∀ h ∈ img.loads, h.NoGap) := by
  have hfits : ∀ h ∈ img.loads, h.Fits := by
    intro h hh
    obtain ⟨hle, hlt⟩ := hsize h hh
    have hskew := h.skew_lt
    unfold Phdr.Fits
    rw [pageSize] at hskew
    omega
  have hloop := (segmentLoop_eq img.file (libBase heap mapHeapFirst) img.phdrs 0
    (libBase heap mapHeapFirst)).trans (if_pos hfits)
  refine ⟨_, _, hloop, run_segments_eq hloop, ?_⟩
  rw [flatMap_calls]
  exact forall₂_congr fun h hh => loaded_iff hsize hdisj hh

def oneSegment (h : Phdr) : ElfImage :=
  { phdrs := [h], tdata := none, noteSigstruct := none, entry := none
    file := fun x => BitVec.ofNat 8 x
    size := 0x2000 }

def alignedData : Phdr := ⟨.load, 6, 0x1000, 0x1000, 0x100, 0x1800⟩

def unalignedData : Phdr := ⟨.load, 6, 0x800, 0x800, 0x100, 0x1000⟩

theorem segments_loaded_iff_alignedData :
    ∃ segs codeEnd,
      segmentLoop (oneSegment alignedData).file (libBase 4 true) [alignedData] 0 (libBase 4 true) =
        some (segs, codeEnd) ∧
      alignedData.Loaded (oneSegment alignedData).file (libBase 4 true) (segs.flatMap (·.2)) := by
  obtain ⟨segs, codeEnd, hloop, -, hiff⟩ :=
    segments_loaded_iff (oneSegment alignedData) 4 1 1 2 true (List.pairwise_singleton _ _)
      (by decide)
  have hgap : ∀ h ∈ (oneSegment alignedData).loads, h.NoGap :=
    List.forall_mem_singleton.mpr (.inl (by decide))
  exact ⟨segs, codeEnd, hloop, hiff.mpr hgap alignedData List.mem_cons_self⟩

/-- The data meet two pages, and only the first one is processed. -/
theorem unalignedData_loses_page :
    unalignedData.filesz.toNat ≤ unalignedData.memsz.toNat ∧ unalignedData.memsz.toNat < 2 ^ 31 ∧
    unalignedData.OnPage 0 ∧ unalignedData.OnPage 1 ∧
    (segmentLoop (oneSegment unalignedData).file (libBase 4 false) [unalignedData] 0
        (libBase 4 false)).map (fun r => (r.1.flatMap (·.2)).map PageCall.offset) =
      some [libBase 4 false] ∧
    toSize (libBase 4 false + pageSize * 1) ∉ [libBase 4 false] := by
  refine ⟨by decide, by decide, ⟨0, by decide, by decide⟩, ⟨0x800, by decide, by decide⟩, ?_, ?_⟩
  · decide +kernel
  · decide

end RktIo.Sgx
