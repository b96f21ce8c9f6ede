import RktIo.Sgx.Segments

/-!
# The permissions of the segments (`sgx/sgx.c`)

The loop of `process_pages` adds the permissions of a segment to a word that it never clears. A
page is added with the permissions of its own segment and of all segments before it.

## The architecture

* `secInfo_eq`, `addProt_bits` — the permission word, bit by bit;
* `carried_own_iff` — what the loop has collected, against what each segment asks for.
-/

namespace RktIo.Sgx

open List Phdr

/-! ## The permission word -/

section Bits

variable {prot : Word} {h : Phdr}

theorem twoPow_ne_zero {w i : Nat} (hi : i < w) : BitVec.twoPow w i ≠ 0 := by
  intro hzero
  have hbit := congrArg (BitVec.getLsbD · i) hzero
  simp [hi] at hbit

theorem and_twoPow_eq_self_iff {w i : Nat} (hi : i < w) (x : BitVec w) :
    x &&& BitVec.twoPow w i = BitVec.twoPow w i ↔ x.getLsbD i := by
  rw [BitVec.and_twoPow]
  cases x.getLsbD i with
  | true => simp
  | false => simpa using (twoPow_ne_zero hi).symm

theorem and_twoPow_ne_zero_iff {w i : Nat} (hi : i < w) (x : BitVec w) :
    x &&& BitVec.twoPow w i ≠ 0 ↔ x.getLsbD i := by
  rw [BitVec.and_twoPow]
  cases x.getLsbD i with
  | true => simpa using twoPow_ne_zero hi
  | false => simp

theorem and_pageRead_iff : prot &&& pageRead = pageRead ↔ prot.getLsbD 0 :=
  and_twoPow_eq_self_iff (i := 0) (by decide) prot

theorem and_pageWrite_iff : prot &&& pageWrite = pageWrite ↔ prot.getLsbD 1 :=
  and_twoPow_eq_self_iff (i := 1) (by decide) prot

theorem and_pageExec_iff : prot &&& pageExec = pageExec ↔ prot.getLsbD 2 :=
  and_twoPow_eq_self_iff (i := 2) (by decide) prot

theorem and_pageTcs_iff : prot &&& pageTcs = pageTcs ↔ prot.getLsbD 3 :=
  and_twoPow_eq_self_iff (i := 3) (by decide) prot

theorem Phdr.read_iff : h.flags &&& 0x4 ≠ 0 ↔ h.flags.getLsbD 2 :=
  and_twoPow_ne_zero_iff (i := 2) (by decide) h.flags

theorem Phdr.write_iff : h.flags &&& 0x2 ≠ 0 ↔ h.flags.getLsbD 1 :=
  and_twoPow_ne_zero_iff (i := 1) (by decide) h.flags

theorem Phdr.exec_iff : h.flags &&& 0x1 ≠ 0 ↔ h.flags.getLsbD 0 :=
  and_twoPow_ne_zero_iff (i := 0) (by decide) h.flags

theorem secInfo_eq (htcs : prot.getLsbD 3 = false) :
    secInfo prot = ⟨.reg, prot.getLsbD 0, prot.getLsbD 1, prot.getLsbD 2⟩ := by
  simp only [secInfo, and_pageRead_iff, and_pageWrite_iff, and_pageExec_iff, and_pageTcs_iff, htcs,
    Bool.false_eq_true, if_false, Bool.decide_eq_true]

theorem addProt_bits (prot : Word) (h : Phdr) :
    (h.addProt prot).getLsbD 0 = (prot.getLsbD 0 || h.flags.getLsbD 2) ∧
    (h.addProt prot).getLsbD 1 = (prot.getLsbD 1 || h.flags.getLsbD 1) ∧
    (h.addProt prot).getLsbD 2 = (prot.getLsbD 2 || h.flags.getLsbD 0) ∧
    (h.addProt prot).getLsbD 3 = prot.getLsbD 3 := by
  simp only [addProt, read_iff, write_iff, exec_iff, pageRead, pageWrite,
    pageExec]
  cases h.flags.getLsbD 0 <;> cases h.flags.getLsbD 1 <;> cases h.flags.getLsbD 2 <;> simp

end Bits

/-! ## Own permissions -/

def Phdr.perms (h : Phdr) : SecInfo :=
  ⟨.reg, h.flags &&& 0x4 ≠ 0, h.flags &&& 0x2 ≠ 0, h.flags &&& 0x1 ≠ 0⟩

def Phdr.OwnPerms (h : Phdr) (c : PageCall) : Prop :=
  (c.prot &&& pageRead = pageRead ↔ h.flags &&& 0x4 ≠ 0) ∧
  (c.prot &&& pageWrite = pageWrite ↔ h.flags &&& 0x2 ≠ 0) ∧
  (c.prot &&& pageExec = pageExec ↔ h.flags &&& 0x1 ≠ 0) ∧
  ∀ base, (addPage base c).secinfo = h.perms

def Phdr.Allows (h : Phdr) (prot : Word) : Prop :=
  (prot.getLsbD 0 → h.flags.getLsbD 2) ∧ (prot.getLsbD 1 → h.flags.getLsbD 1) ∧
    (prot.getLsbD 2 → h.flags.getLsbD 0)

def Phdr.PermsLe (h h' : Phdr) : Prop :=
  (h.flags &&& 0x4 ≠ 0 → h'.flags &&& 0x4 ≠ 0) ∧ (h.flags &&& 0x2 ≠ 0 → h'.flags &&& 0x2 ≠ 0) ∧
    (h.flags &&& 0x1 ≠ 0 → h'.flags &&& 0x1 ≠ 0)

def Phdr.Emits (h : Phdr) : Prop := 0 < h.filesz.toNat ∨ 0 < toInt32 h.memsz.toNat

theorem zeroPages_pos_iff {x : Int} : 0 < zeroPages x ↔ 0 < x := by
  constructor
  · intro hpos
    by_contra hneg
    rw [zeroPages_of_nonpos (by omega)] at hpos
    omega
  · intro hpos
    lift x to Nat using hpos.le
    rw [zeroPages_natCast, pageSize]
    omega

theorem Phdr.count_pos_iff {h : Phdr} : 0 < h.count ↔ h.Emits := by
  have hskew := h.skew_lt
  unfold Phdr.Emits
  by_cases hfile : 0 < h.filesz.toNat
  · have hle := file_le_fileCount hfile
    have hpos : 0 < h.count := by
      unfold count
      rw [pageSize] at *
      omega
    simp [hfile, hpos]
  · have hzero : h.filesz.toNat = 0 := by omega
    have hfull : h.fullCount = 0 := by
      rw [fullCount, hzero]
      exact Nat.div_eq_of_lt hskew
    have hrem : h.remaining = 0 := by
      rw [remaining, hzero, Nat.zero_sub]
    have hsize : toSize h.memsz.toNat = h.memsz.toNat := toSize_of_lt h.memsz.isLt
    rw [count, fileCount, memRead, hfull, hrem, hzero]
    simp [zeroPages_pos_iff, hsize]

theorem Phdr.ownPerms_iff {h : Phdr} {prot : Word} (htcs : prot.getLsbD 3 = false) {c : PageCall}
    (hc : c.prot = h.addProt prot) : h.OwnPerms c ↔ h.Allows prot := by
  obtain ⟨hread, hwrite, hexec, htype⟩ := addProt_bits prot h
  rw [htcs] at htype
  have hinfo : ∀ base, (addPage base c).secinfo = secInfo c.prot := fun _ => rfl
  simp only [Phdr.OwnPerms, hinfo, hc, secInfo_eq htype, and_pageRead_iff, and_pageWrite_iff,
    and_pageExec_iff, read_iff, write_iff, exec_iff, perms, hread, hwrite,
    hexec, Phdr.Allows]
  cases h.flags.getLsbD 0 <;> cases h.flags.getLsbD 1 <;> cases h.flags.getLsbD 2 <;>
    simp +contextual

theorem Phdr.allows_addProt_iff {h h' : Phdr} {prot : Word} :
    h'.Allows (h.addProt prot) ↔ h'.Allows prot ∧ h.PermsLe h' := by
  obtain ⟨hread, hwrite, hexec, -⟩ := addProt_bits prot h
  simp only [Phdr.Allows, Phdr.PermsLe, read_iff, write_iff, exec_iff, hread,
    hwrite, hexec, Bool.or_eq_true, or_imp]
  tauto

theorem Phdr.calls_own_iff (file : Nat → BitVec 8) (libbase : Nat) {prot : Word}
    (htcs : prot.getLsbD 3 = false) (h : Phdr) :
    (∀ c ∈ h.calls file libbase (h.addProt prot), h.OwnPerms c) ↔ (h.Emits → h.Allows prot) := by
  have hiff : ∀ c ∈ h.calls file libbase (h.addProt prot), h.OwnPerms c ↔ h.Allows prot := by
    intro c hc
    obtain ⟨k, -, rfl⟩ := mem_map.mp hc
    exact ownPerms_iff htcs rfl
  constructor
  · intro hown hemits
    have hmem : h.call file libbase (h.addProt prot) 0 ∈ h.calls file libbase (h.addProt prot) :=
      mem_map_of_mem (mem_range.mpr (count_pos_iff.mpr hemits))
    exact (hiff _ hmem).mp (hown _ hmem)
  · intro hallows c hc
    obtain ⟨k, hk, -⟩ := mem_map.mp hc
    exact (hiff c hc).mpr (hallows (count_pos_iff.mp (by grind)))

theorem carried_own_iff (file : Nat → BitVec 8) (libbase : Nat) (prot : Word)
    (htcs : prot.getLsbD 3 = false) (hs : List Phdr) :
    (∀ x ∈ carried prot hs, ∀ c ∈ x.1.calls file libbase x.2, x.1.OwnPerms c) ↔
      (∀ h ∈ hs, h.Emits → h.Allows prot) ∧ hs.Pairwise fun h h' => h'.Emits → h.PermsLe h' := by
  induction hs generalizing prot with
  | nil => simp [carried]
  | cons h hs ih =>
    have htype : (h.addProt prot).getLsbD 3 = false := (addProt_bits prot h).2.2.2.trans htcs
    rw [carried, forall_mem_cons, forall_mem_cons, pairwise_cons, ih _ htype,
      h.calls_own_iff file libbase htcs]
    -- the segments behind `h` have to allow what was there before, and what `h` adds
    have hsplit : (∀ h' ∈ hs, h'.Emits → h'.Allows (h.addProt prot)) ↔
        (∀ h' ∈ hs, h'.Emits → h'.Allows prot) ∧ ∀ h' ∈ hs, h'.Emits → h.PermsLe h' := by
      simp only [allows_addProt_iff, imp_and, forall_and]
    rw [hsplit]
    tauto

/-- What holds of every library: the pages of each segment have its own permissions if no segment
asks for less than one before it, unless it has no pages at all. -/
theorem segment_permissions_iff (img : ElfImage) (heap stack : Nat) (tcsp : Int) (nssa : Nat)
    (mapHeapFirst : Bool) {segs : List (Phdr × List PageCall)} {codeEnd : Nat}
    (hloop : segmentLoop img.file (libBase heap mapHeapFirst) img.phdrs 0
      (libBase heap mapHeapFirst) = some (segs, codeEnd)) :
    (∀ run ∈ processPages img heap stack tcsp nssa mapHeapFirst, run.segments = segs) ∧
    ((∀ x ∈ segs, ∀ c ∈ x.2, x.1.OwnPerms c) ↔
      img.loads.Pairwise fun h h' => h'.Emits → h.PermsLe h') := by
  refine ⟨run_segments_eq hloop, ?_⟩
  obtain ⟨-, rfl, -⟩ := segmentLoop_eq_some hloop
  -- nothing has been collected before the first segment
  have hnone : ∀ h ∈ loadSegments img.phdrs, h.Emits → h.Allows 0 := by
    intro h _ _
    simp [Phdr.Allows]
  simp only [List.forall_mem_map, carried_own_iff _ _ 0 (by decide)]
  exact and_iff_right hnone

def textSegment : Phdr := ⟨.load, 5, 0, 0, 0x1000, 0x1000⟩
def dataSegment : Phdr := ⟨.load, 6, 0x1000, 0x1000, 0x800, 0x1000⟩

def textAndData : ElfImage :=
  { phdrs := [textSegment, dataSegment], tdata := none, noteSigstruct := none, entry := none
    file := fun x => BitVec.ofNat 8 x
    size := 0x2000 }

def dataOnly : ElfImage := { textAndData with phdrs := [dataSegment] }

theorem segment_permissions_iff_dataOnly :
    ∃ segs codeEnd, segmentLoop dataOnly.file (libBase 1 true) dataOnly.phdrs 0 (libBase 1 true) =
        some (segs, codeEnd) ∧
      ∀ x ∈ segs, ∀ c ∈ x.2, x.1.OwnPerms c := by
  have hfits : ∀ h ∈ loadSegments dataOnly.phdrs, h.Fits := by decide
  have hloop := (segmentLoop_eq dataOnly.file (libBase 1 true) dataOnly.phdrs 0
    (libBase 1 true)).trans (if_pos hfits)
  exact ⟨_, _, hloop, (segment_permissions_iff dataOnly 1 1 1 2 true hloop).2.mpr
    (List.pairwise_singleton _ _)⟩

/-- The page of the data, which asks for no execution, is added as executable. -/
theorem data_page_is_executable :
    dataSegment.flags &&& 0x1 = 0 ∧
    (segmentLoop textAndData.file (libBase 1 true) textAndData.phdrs 0 (libBase 1 true)).map
        (fun r => r.1.map fun x => (x.1, x.2.map fun c => (addPage 0 c).secinfo)) =
      some [(textSegment, [⟨.reg, true, false, true⟩]), (dataSegment, [⟨.reg, true, true, true⟩])] := by
  constructor
  · decide
  · decide +kernel

end RktIo.Sgx
