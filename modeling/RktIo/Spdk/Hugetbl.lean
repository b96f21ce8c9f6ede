import Mathlib

/-!
# Memory for the NVMe driver (`main/spdk_hugetbl.c`)

Out of the huge pages of the host, `spdk_alloc_dma_memory` takes up to two pieces of a gigabyte
and leaves the rest to DPDK. It refuses a total of less than two gigabytes, but it subtracts four,
and the numbers are unsigned: a total between the two looks like a very large one.
-/

namespace RktIo.Spdk

/-- `struct spdk_dma_memory`, with the pointers of the array in a list. -/
structure DmaMemory where
  nrAllocations : Nat
  allocations : List (Option Nat)
  dataPool : Option Nat
  dataPoolSize : Nat
  deriving DecidableEq

/-- What the calls return: `parse_hugetbl_size` with the total that it has stored,
`spdk_mempool_create`, and `spdk_dma_malloc` in round `i`. -/
structure DmaCalls where
  parse : Int
  hugetblSize : BitVec 64
  mempool : Option Nat
  dmaMalloc : Nat → Option Nat

structure DmaRun where
  result : Int
  ctx : DmaMemory
  /-- The unsigned subtraction went below 0. -/
  wrapped : Bool
  /-- The gigabytes that `spdk_dma_malloc` has returned. -/
  obtained : Nat
  deriving DecidableEq

def gigabyte : BitVec 64 := 1024 * 1024 * 1024

def enomem : Int := 12

def spdkQueueDepth : Nat := 1023

def dmaGigabytes (hugetblSize : BitVec 64) : BitVec 64 :=
  if 2 > (hugetblSize - 4 * gigabyte) / gigabyte then (hugetblSize - 4 * gigabyte) / gigabyte
  else 2

/-- An array behind a loop that fills it. The loop stops at the first allocation that fails, and
what is left of the array is as `calloc` made it. -/
def allocateAll (alloc : Nat → Option Nat) : Nat → Nat → List (Option Nat)
  | 0, _ => []
  | left + 1, i =>
    match alloc i with
    | none => List.replicate (left + 1) none
    | some p => some p :: allocateAll alloc left (i + 1)

def spdkFreeDmaMemory (ctx : DmaMemory) : DmaMemory :=
  if ctx.dataPool.isSome then { ctx with dataPool := none, dataPoolSize := 0 } else ctx

def spdkAllocDmaMemory (calls : DmaCalls) (ctx : DmaMemory) : DmaRun :=
  if calls.parse < 0 then ⟨calls.parse, ctx, false, 0⟩
  else if calls.hugetblSize < 2 * gigabyte then ⟨-enomem, ctx, false, 0⟩
  else
    let ctx := { ctx with dataPoolSize := spdkQueueDepth, dataPool := calls.mempool }
    if calls.mempool.isNone then ⟨-enomem, spdkFreeDmaMemory ctx, false, 0⟩
    else
      -- leave two gigabyte for DPDK
      let gigabytes := (dmaGigabytes calls.hugetblSize).toNat
      let wrapped := calls.hugetblSize.usubOverflow (4 * gigabyte)
      let allocations := allocateAll calls.dmaMalloc gigabytes 0
      let ctx := { ctx with nrAllocations := gigabytes, allocations }
      let obtained := allocations.countP Option.isSome
      if none ∈ allocations then ⟨-enomem, spdkFreeDmaMemory ctx, wrapped, obtained⟩
      else ⟨0, ctx, wrapped, obtained⟩

def DmaRun.LeavesRoom (run : DmaRun) (hugetblSize : BitVec 64) : Prop :=
  run.obtained ≤ 2 ∧ run.wrapped = false ∧
    (run.obtained + 2) * gigabyte.toNat ≤ hugetblSize.toNat

instance (run : DmaRun) (hugetblSize : BitVec 64) : Decidable (run.LeavesRoom hugetblSize) :=
  inferInstanceAs (Decidable (_ ∧ _))

theorem length_allocateAll (alloc : Nat → Option Nat) (left i : Nat) :
    (allocateAll alloc left i).length = left := by
  induction left generalizing i with
  | zero => rfl
  | succ left ih =>
    rw [allocateAll]
    split
    · exact List.length_replicate
    · rw [List.length_cons, ih]

theorem dmaGigabytes_le {hugetblSize : BitVec 64} (h : 4 * gigabyte ≤ hugetblSize) :
    (dmaGigabytes hugetblSize).toNat ≤ 2 ∧
      ((dmaGigabytes hugetblSize).toNat + 2) * gigabyte.toNat ≤ hugetblSize.toNat := by
  have hgb : gigabyte.toNat = 2 ^ 30 := by decide
  have hfour : (4 * gigabyte).toNat = 4 * 2 ^ 30 := by decide
  have hle : 4 * 2 ^ 30 ≤ hugetblSize.toNat := hfour ▸ BitVec.le_def.mp h
  have hdiv : ((hugetblSize - 4 * gigabyte) / gigabyte).toNat =
      (hugetblSize.toNat - 4 * 2 ^ 30) / 2 ^ 30 := by
    rw [BitVec.toNat_udiv, BitVec.toNat_sub_of_le h, hgb, hfour]
  unfold dmaGigabytes
  split
  case isTrue hgt =>
    rw [gt_iff_lt, BitVec.lt_def, hdiv] at hgt
    have htwo : (2 : BitVec 64).toNat = 2 := rfl
    rw [hdiv, hgb]
    omega
  case isFalse hge =>
    rw [gt_iff_lt, BitVec.lt_def, hdiv] at hge
    have htwo : (2 : BitVec 64).toNat = 2 := rfl
    rw [htwo, hgb] at *
    omega

theorem spdkAllocDmaMemory_of_pool {calls : DmaCalls} {ctx : DmaMemory} {pool : Nat}
    (hparse : 0 ≤ calls.parse) (hsize : 2 * gigabyte ≤ calls.hugetblSize)
    (hpool : calls.mempool = some pool) :
    (spdkAllocDmaMemory calls ctx).wrapped = calls.hugetblSize.usubOverflow (4 * gigabyte) ∧
      (spdkAllocDmaMemory calls ctx).obtained ≤ (dmaGigabytes calls.hugetblSize).toNat := by
  have hcount : (allocateAll calls.dmaMalloc (dmaGigabytes calls.hugetblSize).toNat 0).countP
      Option.isSome ≤ (dmaGigabytes calls.hugetblSize).toNat := by
    refine List.countP_le_length.trans_eq ?_
    exact length_allocateAll _ _ _
  unfold spdkAllocDmaMemory
  rw [if_neg (Int.not_lt.mpr hparse), if_neg (BitVec.not_lt.mpr hsize)]
  simp only [hpool, Option.isNone_some, Bool.false_eq_true, if_false]
  split <;> exact ⟨rfl, hcount⟩

/-- **Room for DPDK** is left of a total that is not refused exactly if the total has the four
gigabytes that are subtracted, or if nothing is allocated because there is no data pool. -/
theorem dma_leaves_room_iff (calls : DmaCalls) (ctx : DmaMemory) (hparse : 0 ≤ calls.parse)
    (hsize : 2 * gigabyte ≤ calls.hugetblSize) :
    (spdkAllocDmaMemory calls ctx).LeavesRoom calls.hugetblSize ↔
      calls.mempool = none ∨ 4 * gigabyte ≤ calls.hugetblSize := by
  cases hpool : calls.mempool with
  | none =>
    have hlow : 2 * gigabyte.toNat ≤ calls.hugetblSize.toNat := BitVec.le_def.mp hsize
    have hrun : (spdkAllocDmaMemory calls ctx).LeavesRoom calls.hugetblSize := by
      unfold spdkAllocDmaMemory
      rw [if_neg (Int.not_lt.mpr hparse), if_neg (BitVec.not_lt.mpr hsize)]
      simpa [hpool, DmaRun.LeavesRoom] using hlow
    exact iff_of_true hrun (.inl rfl)
  | some pool =>
    obtain ⟨hwrapped, hobtained⟩ := @spdkAllocDmaMemory_of_pool calls ctx pool hparse hsize hpool
    have hwrap : (spdkAllocDmaMemory calls ctx).wrapped = false ↔
        4 * gigabyte ≤ calls.hugetblSize := by
      rw [hwrapped, BitVec.usubOverflow, decide_eq_false_iff_not, Nat.not_lt, BitVec.le_def]
    constructor
    · rintro ⟨-, hno, -⟩
      exact .inr (hwrap.mp hno)
    · rintro (hnone | hfour)
      · cases hnone
      obtain ⟨htwo, hroom⟩ := dmaGigabytes_le hfour
      refine ⟨hobtained.trans htwo, hwrap.mpr hfour, le_trans ?_ hroom⟩
      exact Nat.mul_le_mul_right _ (by omega)

def dmaCallsOk (gigabytes : BitVec 64) : DmaCalls := ⟨0, gigabytes * gigabyte, some 0, some⟩

theorem dma_leaves_room_iff_five :
    (spdkAllocDmaMemory (dmaCallsOk 5) ⟨0, [], none, 0⟩).LeavesRoom (5 * gigabyte) ↔
      (dmaCallsOk 5).mempool = none ∨ 4 * gigabyte ≤ 5 * gigabyte :=
  dma_leaves_room_iff (dmaCallsOk 5) ⟨0, [], none, 0⟩ (by decide) (by decide)

/-- Of a total of two gigabytes both are taken. -/
theorem two_gigabytes_taken :
    ¬ (dmaCallsOk 2).hugetblSize < 2 * gigabyte ∧
      (spdkAllocDmaMemory (dmaCallsOk 2) ⟨0, [], none, 0⟩).result = 0 ∧
      (spdkAllocDmaMemory (dmaCallsOk 2) ⟨0, [], none, 0⟩).obtained = 2 ∧
      ¬ (spdkAllocDmaMemory (dmaCallsOk 2) ⟨0, [], none, 0⟩).LeavesRoom
        (dmaCallsOk 2).hugetblSize := by
  decide +kernel

end RktIo.Spdk
