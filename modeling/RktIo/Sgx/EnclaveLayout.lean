import RktIo.Queue.Register
import RktIo.Sgx.LoadedPages
import RktIo.Sgx.ThreadPages

/-!
# The layout of the enclave (`sgx/sgx.c`)

The pages of an enclave are laid out by one running offset: the null page, the heap if it comes
first, the library, the heap if it comes last, and the threads. The library is placed by the
addresses in its headers, and the offset is taken up again behind the last segment. The size that
is reserved is computed elsewhere, from the headers.

In terms of page numbers, the layout is a strictly increasing list that ends below the size. There
are two exceptions: the size is rounded up to a power of two, which may be `2 ^ 64`, and a library
without segments leaves the offset at `libbase`, which is then added twice.

## The architecture

* `getLoadableSize_eq` — the size of the library in pages;
* `segmentPages_sorted`, `layout_sorted` — the page numbers;
* `calls_offsets` — the offsets of a run are those of its pages.
-/

namespace RktIo.Sgx

open Bytes List ThreadParms

/-! ## The next power of two -/

variable {size front last back : Nat}

theorem countP_testBit_eq_one_iff (hlt : size < 2 ^ 64) :
    (List.range 64).countP size.testBit = 1 ↔ ∃ k, size = 2 ^ k := by
  constructor
  · intro hone
    rw [countP_eq_length_filter, length_eq_one_iff] at hone
    obtain ⟨k, hk⟩ := hone
    have hbit : ∀ i < 64, size.testBit i = true ↔ i = k := by
      intro i hi
      have hmem : i ∈ (List.range 64).filter size.testBit ↔ i = k := by
        rw [hk, mem_singleton]
      rw [← hmem, mem_filter, mem_range]
      exact (and_iff_right hi).symm
    refine ⟨k, Nat.eq_of_testBit_eq fun i => ?_⟩
    have hk64 : k < 64 := by
      have hmem : k ∈ (List.range 64).filter size.testBit := hk ▸ mem_singleton_self k
      exact mem_range.mp (mem_filter.mp hmem).1
    rw [Nat.testBit_two_pow, Bool.eq_iff_iff, decide_eq_true_iff]
    by_cases hi : i < 64
    · rw [hbit i hi, eq_comm]
    · have hhigh : size < 2 ^ i := hlt.trans_le (Nat.pow_le_pow_right (by decide) (by omega))
      rw [Nat.testBit_lt_two_pow hhigh]
      exact iff_of_false (by simp) (by omega)
  · rintro ⟨k, rfl⟩
    have hk : k < 64 := (Nat.pow_lt_pow_iff_right (by decide)).mp hlt
    have hcount : (List.range 64).countP (2 ^ k).testBit = (List.range 64).count k := by
      refine countP_congr fun i _ => ?_
      rw [Nat.testBit_two_pow, decide_eq_true_iff, beq_iff_eq, eq_comm]
    rw [hcount]
    exact count_eq_one_of_mem nodup_range (mem_range.mpr hk)

theorem toSize_mul_toSize (a b : Nat) : toSize (a * toSize b : Nat) = toSize (a * b : Nat) := by
  unfold toSize
  norm_cast
  exact Nat.mul_mod_mod a b _

theorem shiftPower_eq (fuel : Nat) {power : Nat} (hpos : 0 < size) (hlt : size < 2 ^ fuel)
    (hpower : power < 2 ^ 64) :
    shiftPower fuel size power = toSize (2 ^ Nat.log 2 size * power : Nat) := by
  induction fuel generalizing size power with
  | zero => omega
  | succ fuel ih =>
    rw [shiftPower]
    by_cases hone : size / 2 = 0
    · have hlog : Nat.log 2 size = 0 := Nat.log_of_lt (by omega)
      rw [if_pos hone, hlog, pow_zero, Nat.one_mul, toSize_of_lt hpower]
    · have hlog : Nat.log 2 size = Nat.log 2 (size / 2) + 1 :=
        Nat.log_of_one_lt_of_le (by decide) (by omega)
      rw [if_neg hone, ih (by omega) (by rw [pow_succ] at hlt; omega) (toSize_lt _), hlog]
      have hnat : toSize (2 * power : Int) = toSize (2 * power : Nat) := by push_cast; rfl
      rw [hnat, toSize_mul_toSize, pow_succ, Nat.mul_assoc]

theorem getNextPower2_eq (hpos : 0 < size) (hlt : size < 2 ^ 64) :
    getNextPower2 size = toSize (2 ^ Nat.clog 2 size : Nat) := by
  unfold getNextPower2
  by_cases hone : (List.range 64).countP size.testBit = 1
  · obtain ⟨k, rfl⟩ := (countP_testBit_eq_one_iff hlt).mp hone
    rw [if_pos hone, Nat.clog_pow 2 k (by decide), toSize_of_lt hlt]
  · have hlow : 2 ^ Nat.log 2 size < size := by
      refine lt_of_le_of_ne (Nat.pow_log_le_self 2 hpos.ne') fun heq => hone ?_
      exact (countP_testBit_eq_one_iff hlt).mpr ⟨_, heq.symm⟩
    have hhigh : size ≤ 2 ^ (Nat.log 2 size + 1) :=
      (Nat.lt_pow_succ_log_self (by decide) size).le
    have hclog : Nat.clog 2 size = Nat.log 2 size + 1 :=
      le_antisymm (Nat.clog_le_of_le_pow hhigh) ((Nat.lt_clog_iff_pow_lt (by decide)).mpr hlow)
    rw [if_neg hone, shiftPower_eq 64 hpos hlt (by decide), hclog, pow_succ]

theorem getNextPower2_cases (hpos : 0 < size) (hlt : size < 2 ^ 64) :
    getNextPower2 size = if size ≤ 2 ^ 63 then 2 ^ Nat.clog 2 size else 0 := by
  rw [getNextPower2_eq hpos hlt]
  split
  case isTrue hle =>
    have hclog : Nat.clog 2 size ≤ 63 := Nat.clog_le_of_le_pow hle
    have hpow : 2 ^ Nat.clog 2 size ≤ 2 ^ 63 := Nat.pow_le_pow_right (by decide) hclog
    exact toSize_of_lt (by omega)
  case isFalse hgt =>
    have hclog : Nat.clog 2 size = 64 :=
      le_antisymm (Nat.clog_le_of_le_pow hlt.le)
        ((Nat.lt_clog_iff_pow_lt (by decide)).mpr (by omega))
    rw [hclog]
    decide

def shiftPowerLoop : Nat → Nat → Nat → Option Nat
  | 0, _, _ => none
  | rounds + 1, size, power =>
    if size / 2 = 0 then some power else shiftPowerLoop rounds (size / 2) (toSize (2 * power))

def getNextPower2Loop (rounds size : Nat) : Option Nat :=
  if (List.range 64).countP size.testBit = 1 then some size else shiftPowerLoop rounds size 2

theorem shiftPowerLoop_eq {rounds : Nat} (power : Nat) (hpos : 0 < size)
    (hlt : size < 2 ^ rounds) :
    shiftPowerLoop rounds size power = some (shiftPower rounds size power) := by
  induction rounds generalizing size power with
  | zero => omega
  | succ rounds ih =>
    rw [shiftPowerLoop, shiftPower]
    split
    · rfl
    · exact ih _ (by omega) (by rw [pow_succ] at hlt; omega)

theorem getNextPower2Loop_eq (hpos : 0 < size) (hlt : size < 2 ^ 64) :
    getNextPower2Loop 64 size = some (getNextPower2 size) := by
  unfold getNextPower2Loop getNextPower2
  split
  · rfl
  · exact shiftPowerLoop_eq 2 hpos hlt

theorem isLeast_pow_clog (size : Nat) :
    IsLeast {p | (∃ k, p = 2 ^ k) ∧ size ≤ p} (2 ^ Nat.clog 2 size) := by
  refine ⟨⟨⟨_, rfl⟩, Nat.le_pow_clog (by decide) size⟩, ?_⟩
  rintro _ ⟨⟨k, rfl⟩, hle⟩
  exact Nat.pow_le_pow_right (by decide) (Nat.clog_le_of_le_pow hle)

/-- **The host and the loader round alike.** `next_pow2` doubles from below, `get_next_power2`
shifts its argument away; both end at the least power of two that is not below it. -/
theorem power2_helpers_agree (x : BitVec 64) (hpos : 1 ≤ x.toNat) (hle : x.toNat ≤ 2 ^ 63) :
    ∃ n : BitVec 64, Queue.nextPow2 x = some n ∧ getNextPower2Loop 64 x.toNat = some n.toNat ∧
      IsLeast {p | (∃ k, p = 2 ^ k) ∧ x.toNat ≤ p} n.toNat := by
  have hclog : Nat.clog 2 x.toNat < 64 := by
    have hle63 : Nat.clog 2 x.toNat ≤ 63 := Nat.clog_le_of_le_pow hle
    omega
  refine ⟨_, Queue.nextPow2_eq hle, ?_, ?_⟩
  · rw [getNextPower2Loop_eq hpos (by omega), getNextPower2_cases hpos (by omega), if_pos hle,
      BitVec.toNat_twoPow_of_lt hclog]
  · rw [BitVec.toNat_twoPow_of_lt hclog]
    exact isLeast_pow_clog x.toNat

theorem power2_helpers_agree_five :
    ∃ n : BitVec 64, Queue.nextPow2 5 = some n ∧ getNextPower2Loop 64 5 = some n.toNat ∧
      IsLeast {p | (∃ k, p = 2 ^ k) ∧ 5 ≤ p} n.toNat :=
  power2_helpers_agree 5 (by decide) (by decide)

/-! ## The size of the library -/

def Phdr.endPage (h : Phdr) : Nat := (h.vaddr.toNat + h.memsz.toNat + (pageSize - 1)) / pageSize

def Phdr.Sized (h : Phdr) : Prop := h.type = .load ∨ h.type = .phdr

instance (h : Phdr) : Decidable h.Sized := inferInstanceAs (Decidable (_ ∨ _))

variable {h : Phdr}

theorem sized_of_mem_loads {img : ElfImage} (hh : h ∈ img.loads) : h ∈ img.phdrs ∧ h.Sized := by
  obtain ⟨hmem, htype⟩ := mem_filter.mp hh
  exact ⟨hmem, .inl (by simpa using htype)⟩

def libraryPages (phdrs : List Phdr) : Nat :=
  ((phdrs.filter (·.Sized)).map Phdr.endPage).foldr max 0

theorem endPage_le_libraryPages {phdrs : List Phdr} (hh : h ∈ phdrs) (hs : h.Sized) :
    h.endPage ≤ libraryPages phdrs := by
  have hmem : h.endPage ∈ (phdrs.filter (·.Sized)).map Phdr.endPage :=
    mem_map_of_mem (mem_filter.mpr ⟨hh, decide_eq_true hs⟩)
  exact le_max_of_le hmem le_rfl

def maxAddrStep (maxAddr : Int) (h : Phdr) : Int :=
  if h.Sized then
    let top := toInt32 (toSize (h.vaddr.toNat + h.memsz.toNat))
    if maxAddr < top then top else maxAddr
  else maxAddr

theorem getLoadableSize_eq_foldl (img : ElfImage) :
    getLoadableSize img =
      toInt32 (img.phdrs.foldl maxAddrStep 0 + (pageSize - 1)) / pageSize := rfl

def Phdr.Small (h : Phdr) : Prop :=
  h.Sized → h.vaddr.toNat + h.memsz.toNat ≤ 2 ^ 31 - pageSize

instance (h : Phdr) : Decidable h.Small := inferInstanceAs (Decidable (_ → _))

theorem maxAddrStep_spec {maxAddr : Nat} (hsmall : h.Small) (hmax : maxAddr ≤ 2 ^ 31 - pageSize) :
    ∃ next : Nat, maxAddrStep maxAddr h = next ∧ next ≤ 2 ^ 31 - pageSize ∧
      (next + (pageSize - 1)) / pageSize =
        max ((maxAddr + (pageSize - 1)) / pageSize) (libraryPages [h]) := by
  unfold maxAddrStep
  by_cases hs : h.Sized
  · have hle := hsmall hs
    have hpages : libraryPages [h] = h.endPage := by simp [libraryPages, hs]
    have htop : toInt32 (toSize (h.vaddr.toNat + h.memsz.toNat)) =
        (h.vaddr.toNat + h.memsz.toNat : Nat) := by
      rw [← Nat.cast_add, toSize_of_lt, toInt32_of_lt] <;> rw [pageSize] at hle <;> omega
    simp only [if_pos hs, htop]
    rw [hpages, Phdr.endPage]
    rw [pageSize] at *
    split
    case isTrue => exact ⟨_, rfl, hle, by omega⟩
    case isFalse => exact ⟨maxAddr, rfl, hmax, by omega⟩
  · have hpages : libraryPages [h] = 0 := by simp [libraryPages, hs]
    rw [if_neg hs, hpages, Nat.max_zero]
    exact ⟨maxAddr, rfl, hmax, rfl⟩

theorem libraryPages_cons (h : Phdr) (hs : List Phdr) :
    libraryPages (h :: hs) = max (libraryPages [h]) (libraryPages hs) := by
  by_cases hh : h.Sized <;> simp [libraryPages, hh]

theorem foldl_maxAddrStep {phdrs : List Phdr} {maxAddr : Nat} (hsmall : ∀ h ∈ phdrs, h.Small)
    (hmax : maxAddr ≤ 2 ^ 31 - pageSize) :
    ∃ top : Nat, phdrs.foldl maxAddrStep maxAddr = top ∧ top ≤ 2 ^ 31 - pageSize ∧
      (top + (pageSize - 1)) / pageSize =
        max ((maxAddr + (pageSize - 1)) / pageSize) (libraryPages phdrs) := by
  induction phdrs generalizing maxAddr with
  | nil => exact ⟨maxAddr, foldl_nil, hmax, by simp [libraryPages]⟩
  | cons h hs ih =>
    obtain ⟨hhead, htail⟩ := forall_mem_cons.mp hsmall
    obtain ⟨next, hnext, hnle, hpages⟩ := maxAddrStep_spec hhead hmax
    obtain ⟨top, htop, htle, hmaxp⟩ := ih htail hnle
    refine ⟨top, ?_, htle, ?_⟩
    · rw [foldl_cons, hnext, htop]
    · rw [hmaxp, hpages, libraryPages_cons h hs, max_assoc]

theorem getLoadableSize_eq {img : ElfImage} (hsmall : ∀ h ∈ img.phdrs, h.Small) :
    getLoadableSize img = libraryPages img.phdrs := by
  obtain ⟨top, htop, hle, hpages⟩ := foldl_maxAddrStep hsmall (Nat.zero_le (2 ^ 31 - pageSize))
  have hcast : (top : Int) + (pageSize - 1) = (top + (pageSize - 1) : Nat) := by
    rw [pageSize]
    omega
  have hint : toInt32 (top + (pageSize - 1) : Nat) = (top + (pageSize - 1) : Nat) :=
    toInt32_of_lt (by rw [pageSize] at *; omega)
  have hzero : (0 + (pageSize - 1)) / pageSize = 0 := by decide
  rw [hzero, Nat.zero_max] at hpages
  rw [Nat.cast_zero] at htop
  rw [getLoadableSize_eq_foldl, htop, hcast, hint]
  exact_mod_cast hpages

/-! ## The pages of the library -/

def Ascending (hs : List Phdr) : Prop :=
  hs.Pairwise fun h h' => h.firstPage + h.span ≤ h'.firstPage

def segmentPages (hs : List Phdr) : List Nat :=
  hs.flatMap fun h => List.range' h.firstPage h.count

def lastPage (q : Nat) (hs : List Phdr) : Nat := hs.foldl (fun _ h => h.firstPage + h.count) q

theorem lastPage_nil (q : Nat) : lastPage q [] = q := foldl_nil

theorem lastPage_cons (q : Nat) (h : Phdr) (hs : List Phdr) :
    lastPage q (h :: hs) = lastPage (h.firstPage + h.count) hs := by
  rw [lastPage, lastPage, foldl_cons]

variable {hs : List Phdr}

theorem lastPage_le {n : Nat} (hne : hs ≠ [])
    (hle : ∀ h ∈ hs, h.firstPage + h.count ≤ n) (q : Nat) : lastPage q hs ≤ n := by
  induction hs generalizing q with
  | nil => exact absurd rfl hne
  | cons h hs ih =>
    obtain ⟨hhead, htail⟩ := forall_mem_cons.mp hle
    rw [lastPage_cons]
    by_cases hnil : hs = []
    · rw [hnil, lastPage_nil]
      exact hhead
    · exact ih hnil htail _

theorem lastOffset_eq (hlt : ∀ h ∈ hs, h.firstPage + h.count < 2 ^ 52) (q : Nat) :
    lastOffset (pageSize * q) hs = pageSize * lastPage q hs := by
  induction hs generalizing q with
  | nil => rfl
  | cons h hs ih =>
    obtain ⟨hhead, htail⟩ := forall_mem_cons.mp hlt
    have hend : toSize (h.start + pageSize * h.count) = pageSize * (h.firstPage + h.count) := by
      rw [h.start_eq, Nat.mul_add]
      rw [pageSize]
      unfold toSize
      omega
    rw [lastOffset_cons, lastPage_cons, hend, ih htail]

theorem loopCalls_offsets {file : Nat → BitVec 8}
    (hlt : ∀ q ∈ segmentPages hs, front + q < 2 ^ 52) (prot : Word) :
    (loopCalls file (pageSize * front) prot hs).map PageCall.offset =
      (segmentPages hs).map fun q => pageSize * (front + q) := by
  induction hs generalizing prot with
  | nil => rfl
  | cons h hs ih =>
    have hcons : segmentPages (h :: hs) = List.range' h.firstPage h.count ++ segmentPages hs :=
      flatMap_cons
    rw [hcons] at hlt ⊢
    obtain ⟨hhead, htail⟩ := forall_mem_append.mp hlt
    rw [loopCalls, carried, flatMap_cons, map_append, map_append]
    refine congrArg₂ (· ++ ·) ?_ (ih htail _)
    rw [Phdr.calls, map_map, List.range'_eq_map_range, map_map]
    refine map_congr_left fun k hk => ?_
    have hcount : k < h.count := mem_range.mp hk
    have hpage := hhead (h.firstPage + k) (mem_range'_1.mpr ⟨by omega, by omega⟩)
    simp only [Function.comp, Phdr.call]
    rw [pageSize]
    unfold toSize
    omega

section Library

variable {hs : List Phdr}
  (hsize : ∀ h ∈ hs, h.filesz.toNat ≤ h.memsz.toNat ∧ h.memsz.toNat < 2 ^ 31)

include hsize

theorem segmentPages_sorted (hasc : Ascending hs) {q : Nat} (hq : ∀ h ∈ hs, q ≤ h.firstPage) :
    q ≤ lastPage q hs ∧ (∀ k ∈ segmentPages hs, q ≤ k ∧ k < lastPage q hs) ∧
      (segmentPages hs).Pairwise (· < ·) := by
  induction hs generalizing q with
  | nil => simp [lastPage, segmentPages]
  | cons h hs ih =>
    obtain ⟨hhead, htail⟩ := pairwise_cons.mp hasc
    obtain ⟨⟨hfile, hmem⟩, hsize'⟩ := forall_mem_cons.mp hsize
    have hspan := Phdr.count_le_span hfile hmem
    have hfirst := hq h mem_cons_self
    obtain ⟨hle, hin, hsorted⟩ := ih hsize' htail (q := h.firstPage + h.count)
      fun h' hh' => (Nat.add_le_add_left hspan _).trans (hhead h' hh')
    have hown : ∀ k ∈ List.range' h.firstPage h.count,
        h.firstPage ≤ k ∧ k < h.firstPage + h.count := fun k hk => mem_range'_1.mp hk
    have hcons : segmentPages (h :: hs) = List.range' h.firstPage h.count ++ segmentPages hs :=
      flatMap_cons
    rw [lastPage_cons, hcons, pairwise_append]
    refine ⟨by omega, fun k hk => ?_, pairwise_lt_range', hsorted, fun k hk k' hk' => ?_⟩
    · rcases mem_append.mp hk with hk | hk
      · have := hown k hk
        omega
      · have := hin k hk
        omega
    · have := hown k hk
      have := hin k' hk'
      omega

end Library

theorem Phdr.firstPage_add_count_le (hle : h.filesz.toNat ≤ h.memsz.toNat)
    (hlt : h.memsz.toNat < 2 ^ 31) : h.firstPage + h.count ≤ h.endPage := by
  have hspan := Phdr.count_le_span hle hlt
  have hv := h.vaddr_eq
  unfold Phdr.span Phdr.endPage at *
  rw [pageSize] at *
  split at hspan <;> omega

/-! ## All pages -/

def frontPages (heap : Nat) (mapHeapFirst : Bool) : Nat := 1 + if mapHeapFirst then heap else 0

def backPages (heap stack tcsp : Nat) (mapHeapFirst : Bool) : Nat :=
  (if mapHeapFirst then 0 else heap) + tcsp * (stack + 4)

def layoutPages (front last back : Nat) (hs : List Phdr) : List Nat :=
  List.range front ++ (segmentPages hs).map (front + ·) ++ List.range' (front + last) back

theorem mem_layoutPages {k : Nat} :
    k ∈ layoutPages front last back hs ↔
      k < front ∨ (∃ q ∈ segmentPages hs, front + q = k) ∨
        (front + last ≤ k ∧ k < front + last + back) := by
  simp only [layoutPages, mem_append, mem_range, mem_map, mem_range'_1,
    or_assoc]

theorem layout_sorted (hlast : ∀ q ∈ segmentPages hs, q < last)
    (hsorted : (segmentPages hs).Pairwise (· < ·)) :
    (layoutPages front last back hs).Pairwise (· < ·) := by
  unfold layoutPages
  rw [pairwise_append, pairwise_append, pairwise_map]
  refine ⟨⟨pairwise_lt_range, hsorted.imp fun h => by omega, ?_⟩, pairwise_lt_range', ?_⟩
  · intro k hk k' hk'
    obtain ⟨q, -, rfl⟩ := mem_map.mp hk'
    have := mem_range.mp hk
    omega
  · intro k hk k' hk'
    have hback := mem_range'_1.mp hk'
    rcases mem_append.mp hk with hk | hk
    · have := mem_range.mp hk
      omega
    · obtain ⟨q, hq, rfl⟩ := mem_map.mp hk
      have := hlast q hq
      omega

theorem layout_below_iff {lib bound : Nat} (hnil : hs = [] → last = front)
    (hlib : hs ≠ [] → last ≤ lib) (hlast : ∀ q ∈ segmentPages hs, q < last) (hpos : 0 < front)
    (hbound : pageSize * (front + back + lib) ≤ bound) :
    (∀ k ∈ layoutPages front last back hs, pageSize * k < bound) ↔
      hs ≠ [] ∨ back = 0 ∨ pageSize * (2 * front + back - 1) < bound := by
  have hbelow : ∀ k < front + back + lib, pageSize * k < bound := by
    intro k hk
    exact ((Nat.mul_lt_mul_left (by decide)).mpr hk).trans_le hbound
  by_cases hloads : hs = []
  · have hfront := hnil hloads
    constructor
    · intro hall
      right
      rcases Nat.eq_zero_or_pos back with hzero | hback
      · exact .inl hzero
      · -- the last page
        exact .inr (hall _ (mem_layoutPages.mpr (.inr (.inr (by omega)))))
    · intro hroom k hk
      rw [mem_layoutPages, hloads] at hk
      rcases hk with hfirst | ⟨q, hq, -⟩ | hrest
      · exact hbelow k (by omega)
      · cases hq
      · have hend := (hroom.resolve_left (not_not.mpr hloads)).resolve_left (by omega)
        exact lt_of_le_of_lt (Nat.mul_le_mul_left _ (by omega)) hend
  · have hle := hlib hloads
    refine iff_of_true (fun k hk => hbelow k ?_) (.inl hloads)
    rcases mem_layoutPages.mp hk with hfirst | ⟨q, hq, rfl⟩ | hrest
    · omega
    · have := hlast q hq
      omega
    · omega

theorem pagesFrom_eq {a n : Nat} (h : a + n ≤ 2 ^ 52) :
    pagesFrom (pageSize * a) n = (List.range' a n).map (pageSize * ·) := by
  rw [pagesFrom, List.range'_eq_map_range, map_map]
  refine map_congr_left fun i hi => ?_
  have := mem_range.mp hi
  simp only [Function.comp]
  rw [pageSize]
  unfold toSize
  omega

theorem map_range' (a n : Nat) :
    (List.range' a n).map (pageSize * ·) = List.range' (pageSize * a) n pageSize := by
  induction n generalizing a with
  | zero => rfl
  | succ n ih => rw [List.range'_succ, map_cons, ih, List.range'_succ, Nat.mul_succ]

/-! ## Where a thread finds its pages -/

def Run.parm (r : Run) (t : ThreadPages) (field : Nat) : Nat :=
  load t.tls.page.bytes (schedTcbBaseSize + r.parmsOffset + field) 8

def Run.stackEnd (r : Run) (t : ThreadPages) : Nat := r.parm t parmsStack + 8

def ThreadPages.ossaAt (t : ThreadPages) : Nat := load t.tcs.page.bytes 16 8
def ThreadPages.ofsbasgx (t : ThreadPages) : Nat := load t.tcs.page.bytes 48 8
def ThreadPages.tcsAt (t : ThreadPages) : Nat := load t.tls.page.bytes 8 8

theorem ThreadParms.tcsFields_apart (p : ThreadParms) (ossa tls : Nat) :
    (p.tcsFields ossa tls).Pairwise Field.Apart := by
  simp only [tcsFields, pairwise_cons, mem_cons, not_mem_nil, or_false,
    forall_eq_or_imp, forall_eq, Field.Apart, false_imp_iff, implies_true, List.Pairwise.nil,
    and_true]
  omega

theorem load_tcsFields (p : ThreadParms) {ossa tls : Nat} {f : Field}
    (hf : f ∈ p.tcsFields ossa tls) :
    load (toPage (storeFields (fun _ => 0) (p.tcsFields ossa tls))).bytes f.1 f.2.1 =
      f.2.2 % 256 ^ f.2.1 := by
  have hin : ∀ g ∈ p.tcsFields ossa tls, g.1 + g.2.1 ≤ pageSize := by
    simp only [tcsFields, mem_cons, not_mem_nil, or_false, forall_eq_or_imp,
      forall_eq]
    decide
  rw [load_toPage _ (hin f hf), load_storeFields (p.tcsFields_apart _ _) hf]

theorem threadPages_at (p : ThreadParms) {page ossa tls : Nat} (hlt : page + p.pages ≤ 2 ^ 52)
    (hossa : ossa = pageSize * (page + p.stack)) (htls : tls = pageSize * (page + p.stack + p.nssa))
    (buf : Nat → BitVec 8) :
    (p.threadPages (pageSize * page) buf).1.tls.page =
        toPage (storeFields buf (p.tlsFields (pageSize * page) ossa tls)) ∧
      (p.threadPages (pageSize * page) buf).1.tcs.page =
        toPage (storeFields (fun _ => 0) (p.tcsFields ossa tls)) := by
  have hossa' : toSize ((pageSize * page : Nat) + pageSize * p.stack) = ossa := by
    unfold pages at hlt
    unfold toSize
    rw [pageSize] at *
    omega
  have htls' : toSize ((pageSize * page : Nat) + pageSize * (p.stack + p.nssa)) = tls := by
    unfold pages at hlt
    unfold toSize
    rw [pageSize] at *
    omega
  rw [← hossa', ← htls']
  exact ⟨rfl, rfl⟩

theorem threadPages_reads (p : ThreadParms)
    (hfits : schedTcbBaseSize + p.parmsOffset + enclaveParmsWritten ≤ pageSize) {page : Nat}
    (hpos : 0 < page) (hlt : page + p.pages ≤ 2 ^ 52) (buf : Nat → BitVec 8) {t : ThreadPages}
    (ht : t = (p.threadPages (pageSize * page) buf).1) {r : Run}
    (hr : r.parmsOffset = p.parmsOffset) :
    r.stackEnd t = pageSize * (page + p.stack) ∧
    t.ossaAt = pageSize * (page + p.stack) ∧
    t.ofsbasgx = pageSize * (page + p.stack + p.nssa) ∧
    t.tcsAt = pageSize * (page + p.stack + p.nssa + 1) ∧
    r.parm t parmsHeap = p.heapOffset % 2 ^ 64 ∧
    r.parm t parmsHeapSize = p.heap * pageSize % 2 ^ 64 := by
  obtain ⟨ossa, hossa⟩ : ∃ ossa, ossa = pageSize * (page + p.stack) := ⟨_, rfl⟩
  obtain ⟨tls, htls⟩ : ∃ tls, tls = pageSize * (page + p.stack + p.nssa) := ⟨_, rfl⟩
  obtain ⟨htlsPage, htcsPage⟩ := threadPages_at p hlt hossa htls buf
  rw [← ht] at htlsPage htcsPage
  have hread : ∀ f ∈ p.tlsFields (pageSize * page) ossa tls,
      load t.tls.page.bytes f.1 f.2.1 = f.2.2 % 256 ^ f.2.1 := by
    intro f hf
    rw [htlsPage, load_tlsFields p hfits buf hf]
  have hreadTcs : ∀ f ∈ p.tcsFields ossa tls,
      load t.tcs.page.bytes f.1 f.2.1 = f.2.2 % 256 ^ f.2.1 := by
    intro f hf
    rw [htcsPage, load_tcsFields p hf]
  have hword : ∀ n < 2 ^ 64, n % 256 ^ 8 = n := by omega
  -- `enc->stack` is 8 bytes below the end, where the save areas start
  have hend : toSize ((pageSize * page : Nat) + p.stack * pageSize - 8) + 8 = ossa := by
    unfold pages at hlt
    unfold toSize
    rw [pageSize] at *
    omega
  have hossa_lt : ossa < 2 ^ 64 := by
    unfold pages at hlt
    rw [pageSize] at *
    omega
  have htcs_lt : tls + pageSize < 2 ^ 64 := by
    unfold pages at hlt
    rw [pageSize] at *
    omega
  unfold Run.stackEnd Run.parm ThreadPages.ossaAt ThreadPages.ofsbasgx ThreadPages.tcsAt
  rw [hr, ← hossa, ← htls]
  refine ⟨?_, ?_, ?_, ?_, ?_, ?_⟩
  · have hstack := hread (schedTcbBaseSize + p.parmsOffset + 16, 8,
      toSize ((pageSize * page : Nat) + p.stack * pageSize - 8)) (by simp [tlsFields])
    rw [← hend, ← hword _ (toSize_lt _)]
    exact congrArg (· + 8) hstack
  · exact (hreadTcs (16, 8, ossa) (by simp [tcsFields])).trans (hword _ hossa_lt)
  · exact (hreadTcs (48, 8, tls) (by simp [tcsFields])).trans (hword tls (by omega))
  · rw [Nat.mul_succ, ← htls]
    exact (hread (8, 8, tls + pageSize) (by simp [tlsFields])).trans (hword _ htcs_lt)
  · exact hread (schedTcbBaseSize + p.parmsOffset + 8, 8, p.heapOffset)
      (by simp [tlsFields])
  · exact hread (schedTcbBaseSize + p.parmsOffset + 40, 8, p.heap * pageSize)
      (by simp [tlsFields])

/-! ## What the layout should be -/

/-- The pages of a thread are those that it finds: `stack` pages up to the end of the stack, the
two save areas, the thread local storage and the TCS. They lie apart from the heap and from the
library. -/
structure Run.ThreadLaidOut (r : Run) (stack : Nat) (t : ThreadPages) : Prop where
  stack_le : pageSize * stack ≤ r.stackEnd t
  pages : t.calls.map PageCall.offset =
    List.range' (r.stackEnd t - pageSize * stack) stack pageSize ++
      [t.ossaAt, t.ossaAt + pageSize, t.ofsbasgx, t.tcsAt]
  heap : ∀ c ∈ t.calls, c.offset + pageSize ≤ r.parm t parmsHeap ∨
    r.parm t parmsHeap + r.parm t parmsHeapSize ≤ c.offset
  library : ∀ c ∈ t.calls, ∀ s ∈ r.segments, ∀ c' ∈ s.2,
    c.offset + pageSize ≤ c'.offset ∨ c'.offset + pageSize ≤ c.offset

structure Run.LaidOut (r : Run) (stack bound : Nat) : Prop where
  distinct : (r.calls.map PageCall.offset).Nodup
  aligned : ∀ c ∈ r.calls, c.offset % pageSize = 0
  below : ∀ c ∈ r.calls, c.offset < bound
  threads : ∀ t ∈ r.threads, r.ThreadLaidOut stack t

def enclavePages (img : ElfImage) (heap stack tcsp : Nat) : Nat :=
  1 + heap + tcsp * (stack + 4) + libraryPages img.phdrs

theorem enclavePages_eq (img : ElfImage) (heap stack tcsp : Nat) (mapHeapFirst : Bool) :
    enclavePages img heap stack tcsp = frontPages heap mapHeapFirst +
      backPages heap stack tcsp mapHeapFirst + libraryPages img.phdrs := by
  unfold enclavePages frontPages backPages
  cases mapHeapFirst <;> grind

/-- A library whose segments stand in ascending order on different pages and end below `2 ^ 31`,
rounded up to pages, and an enclave whose size in bytes does not overflow -/
structure LayoutInput (img : ElfImage) (heap stack tcsp : Nat) : Prop where
  ascending : Ascending img.loads
  file_le : ∀ h ∈ img.loads, h.filesz.toNat ≤ h.memsz.toNat
  small : ∀ h ∈ img.phdrs, h.Small
  bytes : pageSize * enclavePages img heap stack tcsp < 2 ^ 64

section Layout

variable {img : ElfImage} {heap stack tcsp : Nat} {mapHeapFirst : Bool} {run : Run}
  (hin : LayoutInput img heap stack tcsp)

include hin

namespace LayoutInput

theorem memsz : ∀ h ∈ img.loads, h.filesz.toNat ≤ h.memsz.toNat ∧ h.memsz.toNat < 2 ^ 31 := by
  intro h hh
  obtain ⟨hmem, hs⟩ := sized_of_mem_loads hh
  have hle := hin.small h hmem hs
  rw [pageSize] at hle
  exact ⟨hin.file_le h hh, by omega⟩

theorem page_le (hh : h ∈ img.loads) : h.firstPage + h.count ≤ libraryPages img.phdrs := by
  obtain ⟨hmem, hs⟩ := sized_of_mem_loads hh
  obtain ⟨hfile, hlt⟩ := hin.memsz h hh
  exact (Phdr.firstPage_add_count_le hfile hlt).trans (endPage_le_libraryPages hmem hs)

theorem getEnclaveSize_eq :
    getEnclaveSize heap stack tcsp 1 2 (getLoadableSize img) 1 =
      enclavePages img heap stack tcsp := by
  have hlt := hin.bytes
  rw [pageSize] at hlt
  have hcast : (1 + heap + tcsp * (1 + stack + (1 : Nat) * (2 : Nat) + (1 : Nat)) +
      (libraryPages img.phdrs : Nat) : Int) = enclavePages img heap stack tcsp := by
    unfold enclavePages
    push_cast
    ring
  rw [getEnclaveSize, getLoadableSize_eq hin.small, hcast, toSize_of_lt (by omega)]

theorem libBase_eq : libBase heap mapHeapFirst = pageSize * frontPages heap mapHeapFirst := by
  have hlt := hin.bytes
  rw [enclavePages_eq img heap stack tcsp mapHeapFirst] at hlt
  have hcast : (pageSize + if mapHeapFirst then pageSize * heap else 0 : Int) =
      (pageSize * frontPages heap mapHeapFirst : Nat) := by
    unfold frontPages
    cases mapHeapFirst
    · simp
    · simp only [if_true]
      push_cast
      ring
  rw [libBase, hcast]
  refine toSize_of_lt ?_
  rw [pageSize] at *
  omega

theorem lastOffset_eq_lastPage :
    lastOffset (libBase heap mapHeapFirst) img.loads =
      pageSize * lastPage (frontPages heap mapHeapFirst) img.loads := by
  rw [hin.libBase_eq]
  refine lastOffset_eq (fun h hh => ?_) _
  have hle := hin.page_le hh
  have hlt := hin.bytes
  unfold enclavePages at hlt
  rw [pageSize] at hlt
  omega

theorem pages_sorted (front : Nat) :
    (∀ q ∈ segmentPages img.loads, q < lastPage front img.loads) ∧
      (segmentPages img.loads).Pairwise (· < ·) := by
  obtain ⟨-, hlt, hsorted⟩ :=
    segmentPages_sorted hin.memsz hin.ascending (q := 0) fun h _ => Nat.zero_le _
  refine ⟨fun q hq => ?_, hsorted⟩
  have hne : img.loads ≠ [] := by
    rintro hnil
    rw [hnil] at hq
    cases hq
  obtain ⟨h, hs, heq⟩ := exists_cons_of_ne_nil hne
  have hq' := (hlt q hq).2
  rw [heq, lastPage_cons] at hq' ⊢
  exact hq'

end LayoutInput

section

variable (hrun : processPages img heap stack tcsp 2 mapHeapFirst = some run)
  (hfront : front = frontPages heap mapHeapFirst)

include hrun hfront

theorem calls_offsets (hlast : last = lastPage front img.loads)
    (hback : back = backPages heap stack tcsp mapHeapFirst) (hfit : front + last + back ≤ 2 ^ 52) :
    run.calls.map PageCall.offset =
      (layoutPages front last back img.loads).map (pageSize * ·) := by
  obtain ⟨codeEnd, -, -, hloop, -, -, hnull, -⟩ := processPages_eq_some hrun
  obtain ⟨-, hsegs, -⟩ := segmentLoop_eq_some hloop
  obtain ⟨-, -, hheapFirst, hrest⟩ := processPages_layout hrun rfl
  rw [hin.lastOffset_eq_lastPage, hin.libBase_eq, ← hfront, ← hlast, ← Nat.mul_add,
    Int.toNat_natCast] at hrest
  rw [hin.libBase_eq, ← hfront] at hsegs
  have hcalls : run.calls = (run.nullPage :: run.heapFirst) ++ run.segments.flatMap (·.2) ++
      (run.heapLast ++ run.threads.flatMap ThreadPages.calls) := by
    simp only [Run.calls, cons_append, append_assoc]
  have hhead : (run.nullPage :: run.heapFirst).map PageCall.offset =
      (List.range front).map (pageSize * ·) := by
    have hcount : front = (if mapHeapFirst then heap else 0) + 1 := by
      rw [hfront, frontPages, Nat.add_comm]
    have hpages := pagesFrom_eq (a := 1) (n := if mapHeapFirst then heap else 0) (by omega)
    rw [Nat.mul_one] at hpages
    rw [map_cons, hnull, hheapFirst, hpages, hcount, range_eq_range', List.range'_succ]
    rfl
  have hlib : (run.segments.flatMap (·.2)).map PageCall.offset =
      ((segmentPages img.loads).map (front + ·)).map (pageSize * ·) := by
    rw [hsegs, flatMap_calls, map_map]
    refine loopCalls_offsets (fun q hq => ?_) 0
    have hlt := (hin.pages_sorted front).1 q hq
    omega
  have htail : (run.heapLast ++ run.threads.flatMap ThreadPages.calls).map PageCall.offset =
      (List.range' (front + last) back).map (pageSize * ·) := by
    rw [hrest, ← pagesFrom_eq hfit, hback]
    rfl
  rw [hcalls, map_append, map_append, hhead, hlib, htail, layoutPages, map_append,
    map_append]

theorem segment_offset (hfit : front + lastPage front img.loads ≤ 2 ^ 52)
    {s : Phdr × List PageCall} (hs : s ∈ run.segments) {c : PageCall} (hc : c ∈ s.2) :
    ∃ q < lastPage front img.loads, c.offset = pageSize * (front + q) := by
  obtain ⟨codeEnd, -, -, hloop, -⟩ := processPages_eq_some hrun
  obtain ⟨-, hsegs, -⟩ := segmentLoop_eq_some hloop
  rw [hin.libBase_eq, ← hfront] at hsegs
  have hlt := (hin.pages_sorted front).1
  have hmem : c.offset ∈ (run.segments.flatMap (·.2)).map PageCall.offset :=
    mem_map_of_mem (mem_flatMap.mpr ⟨s, hs, hc⟩)
  rw [hsegs, flatMap_calls] at hmem
  have hroom : ∀ q ∈ segmentPages img.loads, front + q < 2 ^ 52 := by
    intro q hq
    have := hlt q hq
    omega
  obtain ⟨q, hq, heq⟩ := mem_map.mp (loopCalls_offsets hroom 0 ▸ hmem)
  exact ⟨q, hlt q hq, heq.symm⟩

theorem thread_page {heapLast : Nat} (hlast : last = lastPage front img.loads)
    (hheapLast : heapLast = if mapHeapFirst then 0 else heap)
    (hfit : front + last + (heapLast + tcsp * (stack + 4)) ≤ 2 ^ 52) {t : ThreadPages}
    (ht : t ∈ run.threads) :
    ∃ (p : ThreadParms) (page : Nat) (buf : Nat → BitVec 8),
      t = (p.threadPages (pageSize * page) buf).1 ∧
      schedTcbBaseSize + p.parmsOffset + enclaveParmsWritten ≤ pageSize ∧
      front + last + heapLast ≤ page ∧
      page + (stack + 4) ≤ front + last + (heapLast + tcsp * (stack + 4)) ∧
      p.stack = stack ∧ p.nssa = 2 ∧ p.parmsOffset = run.parmsOffset ∧ p.heap = heap ∧
      p.heapOffset = if mapHeapFirst then pageSize else pageSize * (front + last) := by
  obtain ⟨codeEnd, i, entry, hloop, hguard, hparms, -, -, -, hthreads⟩ := processPages_eq_some hrun
  obtain ⟨-, -, hend⟩ := segmentLoop_eq_some hloop
  have hcode : libBase heap mapHeapFirst + codeEnd = pageSize * (front + last) := by
    have hoff : codeEnd = _ := hend.trans hin.lastOffset_eq_lastPage
    rw [hoff, hin.libBase_eq, ← hfront, ← hlast, Nat.mul_add]
  obtain ⟨p, hp⟩ : ∃ p, p = threadParms img heap stack tcsp 2 mapHeapFirst codeEnd i entry :=
    ⟨_, rfl⟩
  have hpages : p.pages = stack + 4 := by rw [hp]; rfl
  rw [hthreads, ← hp, hcode, ← hheapLast] at ht
  obtain ⟨j, hj, buf, ht⟩ := mem_threadLoop p (toSize_lt _) ht
  rw [Int.toNat_natCast] at hj
  have hroom : j * (stack + 4) + (stack + 4) ≤ tcsp * (stack + 4) := by
    rw [← Nat.succ_mul]
    exact Nat.mul_le_mul_right _ hj
  have hstart : toSize (toSize ((pageSize * (front + last) : Nat) + pageSize * (heapLast : Nat)) +
      pageSize * (j * p.pages) : Nat) =
        pageSize * (front + last + heapLast + j * (stack + 4)) := by
    rw [hpages]
    generalize j * (stack + 4) = k at *
    rw [pageSize]
    unfold toSize
    omega
  rw [hstart] at ht
  refine ⟨p, _, buf, ht, ?_, Nat.le_add_right _ _, by omega, ?_⟩
  · rw [hp]
    exact hguard.resolve_left (by omega)
  · rw [hp, hparms]
    refine ⟨rfl, rfl, rfl, rfl, ?_⟩
    show (if mapHeapFirst then pageSize else toSize (libBase heap mapHeapFirst + codeEnd)) = _
    rw [← Nat.cast_add, hcode, toSize_of_lt]
    rw [pageSize]
    omega

theorem thread_laid_out (hlast : last = lastPage front img.loads)
    (hback : back = backPages heap stack tcsp mapHeapFirst) (hfit : front + last + back ≤ 2 ^ 52) :
    ∀ t ∈ run.threads, run.ThreadLaidOut stack t := by
  intro t ht
  obtain ⟨heapLast, hheapLast⟩ : ∃ n, n = if mapHeapFirst then 0 else heap := ⟨_, rfl⟩
  rw [backPages, ← hheapLast] at hback
  rw [hback] at hfit
  obtain ⟨p, page, buf, hthread, hfits, hlow, hhigh, hstack, hnssa, hparms, hheap, hoffset⟩ :=
    thread_page hin hrun hfront hlast hheapLast hfit ht
  have hpages : p.pages = stack + 4 := by rw [pages, hstack, hnssa]
  have hpos : 0 < front := by
    rw [hfront, frontPages]
    omega
  obtain ⟨hend, hossa, htls, htcs, hheapAt, hheapSize⟩ :=
    threadPages_reads p hfits (by omega) (by omega) buf hthread hparms.symm
  rw [hstack] at hend hossa htls htcs
  rw [hnssa] at htls htcs
  have hoffsets : t.calls.map PageCall.offset = List.range' (pageSize * page) (stack + 4) pageSize := by
    rw [hthread, threadPages_offsets, hpages, pagesFrom_eq (by omega), map_range']
  have hge : ∀ c ∈ t.calls, pageSize * page ≤ c.offset := by
    intro c hc
    have hmem : c.offset ∈ List.range' (pageSize * page) (stack + 4) pageSize :=
      hoffsets ▸ mem_map_of_mem hc
    obtain ⟨k, -, hk⟩ := mem_range'.mp hmem
    omega
  refine ⟨?_, ?_, fun c hc => .inr ?_, fun c hc s hs c' hc' => .inr ?_⟩
  · rw [hend]
    exact Nat.mul_le_mul_left _ (by omega)
  · rw [hoffsets, hend, hossa, htls, htcs, Nat.mul_add pageSize page stack, Nat.add_sub_cancel,
      ← List.range'_append]
    refine congrArg (_ ++ ·) ?_
    simp only [List.range', Nat.mul_add, List.cons.injEq, and_true, true_and]
    omega
  · -- the heap ends in front of the library, or in front of the threads
    have hheapEnd : p.heapOffset + p.heap * pageSize ≤ pageSize * page := by
      rw [hoffset, hheap]
      cases mapHeapFirst with
      | true =>
        have hfirst : front = 1 + heap := hfront
        have hmul : pageSize * (1 + heap) ≤ pageSize * page := Nat.mul_le_mul_left _ (by omega)
        rw [Nat.mul_add, Nat.mul_one, Nat.mul_comm pageSize heap] at hmul
        exact hmul
      | false =>
        have hmul : pageSize * (front + last + heap) ≤ pageSize * page :=
          Nat.mul_le_mul_left _ (by have : heapLast = heap := hheapLast; omega)
        rw [Nat.mul_add, Nat.mul_comm pageSize heap] at hmul
        exact hmul
    have hle := hge c hc
    rw [hheapAt, hheapSize]
    omega
  · have hle := hge c hc
    obtain ⟨q, hq, hoff⟩ := segment_offset hin hrun hfront (by omega) hs hc'
    have hmul : pageSize * (front + q + 1) ≤ pageSize * page := Nat.mul_le_mul_left _ (by omega)
    rw [hoff]
    rw [Nat.mul_succ] at hmul
    omega

end

/-- For every library whose segments stand in ascending order on different pages, every heap and
stack, every number of threads and both orders: the layout is as it should be if the size of the
enclave can be rounded up to a power of two, and only then. A library without segments shifts what
comes behind it, and has to leave room for that. -/
theorem laid_out_iff
    (hrun : processPages img heap stack tcsp 2 mapHeapFirst = some run) :
    run.LaidOut stack (getNextPower2 (toSize (pageSize *
        getEnclaveSize heap stack tcsp 1 2 (getLoadableSize img) 1 : Nat))) ↔
      pageSize * enclavePages img heap stack tcsp ≤ 2 ^ 63 ∧
      (img.loads ≠ [] ∨ backPages heap stack tcsp mapHeapFirst = 0 ∨
        pageSize * (2 * frontPages heap mapHeapFirst + backPages heap stack tcsp mapHeapFirst - 1) <
          2 ^ Nat.clog 2 (pageSize * enclavePages img heap stack tcsp)) := by
  obtain ⟨front, hfront⟩ : ∃ n, n = frontPages heap mapHeapFirst := ⟨_, rfl⟩
  obtain ⟨last, hlast⟩ : ∃ n, n = lastPage front img.loads := ⟨_, rfl⟩
  obtain ⟨back, hback⟩ : ∃ n, n = backPages heap stack tcsp mapHeapFirst := ⟨_, rfl⟩
  obtain ⟨size, hsize⟩ : ∃ n, n = enclavePages img heap stack tcsp := ⟨_, rfl⟩
  have hsum := enclavePages_eq img heap stack tcsp mapHeapFirst
  have hbytes := hin.bytes
  rw [hin.getEnclaveSize_eq, toSize_of_lt hbytes, ← hfront, ← hback, ← hsize]
  rw [← hfront, ← hback, ← hsize] at hsum
  rw [← hsize] at hbytes
  have hfpos : 0 < front := by
    rw [hfront, frontPages]
    omega
  rw [getNextPower2_cases (by rw [pageSize]; omega) hbytes]
  by_cases hle : pageSize * size ≤ 2 ^ 63
  swap
  · -- the size is rounded up to 0, and there is no room for the null page
    rw [if_neg hle]
    exact iff_of_false (fun hout => Nat.not_lt_zero _ (hout.below run.nullPage List.mem_cons_self))
      fun hcond => hle hcond.1
  rw [if_pos hle, and_iff_right hle]
  have hbound := Nat.le_pow_clog (by decide : 1 < 2) (pageSize * size)
  have hnil : img.loads = [] → last = front := fun hnil => by rw [hlast, hnil, lastPage_nil]
  have hlib : img.loads ≠ [] → last ≤ libraryPages img.phdrs := fun hne =>
    hlast ▸ lastPage_le hne (fun h hh => hin.page_le hh) front
  have hfit : front + last + back ≤ 2 ^ 52 := by
    rw [pageSize] at hle
    by_cases hloads : img.loads = []
    · have := hnil hloads
      omega
    · have := hlib hloads
      omega
  obtain ⟨hlt, hsorted⟩ := hin.pages_sorted front
  rw [← hlast] at hlt
  rw [← layout_below_iff hnil hlib hlt hfpos (hsum ▸ hbound)]
  -- everything but the bound holds in any case
  have hoffsets := calls_offsets hin hrun hfront hlast hback hfit
  have hdistinct : (run.calls.map PageCall.offset).Nodup := by
    rw [hoffsets]
    refine List.Nodup.map (fun k k' heq => ?_) ((layout_sorted hlt hsorted).imp ne_of_lt)
    exact Nat.eq_of_mul_eq_mul_left (by decide) heq
  have hpage : ∀ c ∈ run.calls, ∃ k ∈ layoutPages front last back img.loads,
      pageSize * k = c.offset := by
    intro c hc
    exact List.mem_map.mp (hoffsets ▸ List.mem_map_of_mem hc)
  constructor
  · intro hout k hk
    have hcall : pageSize * k ∈ run.calls.map PageCall.offset := hoffsets ▸ List.mem_map_of_mem hk
    obtain ⟨c, hc, heq⟩ := List.mem_map.mp hcall
    exact heq ▸ hout.below c hc
  · intro hall
    refine ⟨hdistinct, fun c hc => ?_, fun c hc => ?_,
      thread_laid_out hin hrun hfront hlast hback hfit⟩
    · obtain ⟨k, -, hk⟩ := hpage c hc
      rw [← hk, Nat.mul_mod_right]
    · obtain ⟨k, hmem, hk⟩ := hpage c hc
      exact hk ▸ hall k hmem

end Layout

theorem laid_out_iff_small :
    ∃ run, processPages smallLibrary 2 1 2 2 true = some run ∧
      run.LaidOut 1 (getNextPower2 (toSize (pageSize *
        getEnclaveSize 2 1 (2 : Nat) 1 2 (getLoadableSize smallLibrary) 1 : Nat))) := by
  have hin : LayoutInput smallLibrary 2 1 2 :=
    { ascending := List.pairwise_singleton _ _
      file_le := by decide
      small := by decide
      bytes := by decide }
  have hsome : (processPages smallLibrary 2 1 (2 : Nat) 2 true).isSome := by decide +kernel
  obtain ⟨run, hrun⟩ := Option.isSome_iff_exists.mp hsome
  exact ⟨run, hrun, (laid_out_iff hin hrun).mpr ⟨by decide, .inl (by decide)⟩⟩

def noSegments : ElfImage := { smallLibrary with phdrs := smallLibrary.phdrs.drop 1 }

/-- Eight pages are reserved for the null page, two pages of heap and one thread of five pages, and
the last page is put behind them. -/
theorem noSegments_out_of_bounds :
    LayoutInput noSegments 2 1 1 ∧
    (processPages noSegments 2 1 1 2 false).map (fun run => run.calls.map PageCall.offset) =
      some [0, 0x2000, 0x3000, 0x4000, 0x5000, 0x6000, 0x7000, 0x8000] ∧
    getNextPower2 (toSize (pageSize *
      getEnclaveSize 2 1 1 1 2 (getLoadableSize noSegments) 1 : Nat)) = 0x8000 := by
  refine ⟨?_, by decide +kernel, by decide +kernel⟩
  exact { ascending := List.Pairwise.nil, file_le := by decide, small := by decide,
          bytes := by decide }

end RktIo.Sgx
