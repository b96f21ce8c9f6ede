import RktIo.Mem.Bitops

/-!
# The enclave page allocator (`src/sgx/enclave_mem.c`)

`enclave_mman_init` carves a bitmap out of the first pages of the enclave heap; the pages
behind it are handed out by `enclave_mmap`, taken back by `enclave_munmap` and moved by
`enclave_mremap`. This module embeds these functions over one record of the file's static
variables, for a non-debug build.

Addresses and sizes are `size_t`, natural numbers with every sum and difference reduced
modulo `2^64` where the C code computes it (`u64`). Arguments that C converts to `int` go
through `cInt`. A function returns `none` when it does not return or leaves defined
behaviour: a loop that never ends, or a store outside the bitmap.

Loops carry fuel; the lemmas at the end of the file show that it is enough.
-/

namespace RktIo.Mem

open WordBits

/-! ## Machine arithmetic -/

def u64 (x : Int) : Nat := (x % 2 ^ 64).toNat

def ptrdiff (a b : Nat) : Int := Int.bmod ((a : Int) - b) (2 ^ 64)

def cInt (n : Nat) : Int := Int.bmod n (2 ^ 32)

def pageSize : Nat := 4096

def divRoundup (x y : Nat) : Nat := u64 (x + (y - 1)) / y

inductive Errno where
  | EINVAL
  | ENOMEM
  deriving Repr, DecidableEq

/-! ## The static variables -/

/-- The static variables of `enclave_mem.c`, and the enclave memory the allocator copies.
`mmapBitmap` is the contents of the bitmap pages as words. -/
structure Mman where
  mmapBitmap : List Word
  mmapBase : Nat
  mmapEnd : Nat
  mmapNumPages : Nat
  usedPages : Nat
  mmapFiles : Nat
  mmapTopdown : Bool
  mem : Nat → UInt8

/-- `enclave_mman_init(base, num_pages, topdown, _mmap_files)`. `raw` is what the bitmap
pages hold when the function is called; the bits it does not clear keep that value. -/
def enclaveMmanInit (raw : Nat → Word) (mem : Nat → UInt8) (base numPages : Nat)
    (topdown : Bool) (mmapFiles : Nat) : Option Mman := do
  -- Don't use page at address 0x0.
  let (base, numPages) :=
    if base = 0 then (u64 (base + pageSize), u64 ((numPages : Int) - 1)) else (base, numPages)
  let bitmapReqPages := divRoundup numPages (8 * pageSize)
  let mmapNumPages := u64 ((numPages : Int) - bitmapReqPages)
  let mmapBase := u64 (base + bitmapReqPages * pageSize)
  let mmapEnd := u64 (mmapBase + ((mmapNumPages : Int) - 1) * pageSize)
  let bitmap ← bitmapClear ((List.range (pageSize / 8 * bitmapReqPages)).map raw) 0
    (cInt mmapNumPages)
  some
    { mmapBitmap := bitmap
      mmapBase := mmapBase
      mmapEnd := mmapEnd
      mmapNumPages := mmapNumPages
      usedPages := 0
      mmapFiles := mmapFiles
      mmapTopdown := topdown
      mem := mem }

/-! ## Addresses and bitmap indices -/

def inMmapRange (m : Mman) (addr size : Nat) : Bool :=
  decide (m.mmapBase ≤ addr) && decide (u64 (addr + size) ≤ m.mmapEnd)

def indexToAddr (m : Mman) (index : Nat) : Nat :=
  if m.mmapTopdown then u64 ((m.mmapEnd : Int) - index * pageSize)
  else u64 (m.mmapBase + index * pageSize)

def addrToIndex (m : Mman) (addr : Nat) : Nat :=
  if m.mmapTopdown then u64 ((ptrdiff m.mmapEnd addr).tdiv pageSize)
  else u64 ((ptrdiff addr m.mmapBase).tdiv pageSize)

def indexRangeToBaseAddr (m : Mman) (index pages : Nat) : Nat :=
  if m.mmapTopdown then indexToAddr m (u64 (index + ((pages : Int) - 1)))
  else indexToAddr m index

def addrRangeToIndex (m : Mman) (addr pages : Nat) : Nat :=
  if m.mmapTopdown then u64 ((addrToIndex m addr : Int) - ((pages : Int) - 1))
  else addrToIndex m addr

/-! ## Bitmap loops -/

def countSetBitsLoop (map : List Word) (size stop : Nat) : Nat → Nat → Nat → Option Nat
  | 0, _, _ => none
  | fuel + 1, bit, retval =>
    if bit < stop then
      countSetBitsLoop map size stop fuel
        (findNextBit map size ((bit + 1) % 2 ^ 32) % 2 ^ 32) ((retval + 1) % 2 ^ 32)
    else some retval

/-- `bitmap_count_set_bits(map, size, start, nr)`. The search moves forward until it sticks
at `size`, so a loop still running after `size + 2` turns never ends. -/
def bitmapCountSetBits (map : List Word) (size start nr : Nat) : Option Nat :=
  countSetBitsLoop map size (u64 (start + nr)) (size + 2)
    (findNextBit map size start % 2 ^ 32) 0

def findNextZeroAreaLoop (map : List Word) (size nr : Nat) : Nat → Nat → Option Nat
  | 0, _ => none
  | fuel + 1, start =>
    let index := findNextZeroBit map size start
    let stop := index + nr
    if stop > size then some stop
    else
      let i := findNextBit map stop index
      if i < stop then findNextZeroAreaLoop map size nr fuel (i + 1) else some index

def bitmapFindNextZeroArea (map : List Word) (size start nr : Nat) : Option Nat :=
  findNextZeroAreaLoop map size nr (size + 1) start

/-! ## The calls -/

/-- The first half of `enclave_mmap`, under the lock: a fixed range is taken as it is, a
hint if all its pages are free. The result `ok 0` is `ret == 0`, no address chosen yet. -/
def mmapPlaceAt (m : Mman) (addr length pages : Nat) (mmapFixed : Bool) :
    Option (Except Errno Nat × List Word) :=
  if mmapFixed then
    if !inMmapRange m addr length then some (.error .ENOMEM, m.mmapBitmap)
    else do
      let map ← bitmapSet m.mmapBitmap (cInt (addrRangeToIndex m addr pages)) (cInt pages)
      some (.ok addr, map)
  else if addr ≠ 0 ∧ inMmapRange m addr length then do
    let index := addrRangeToIndex m addr pages
    -- Address provided as a hint, check if range is available.
    let count ← bitmapCountSetBits m.mmapBitmap m.mmapNumPages index pages
    if count = 0 then do
      let map ← bitmapSet m.mmapBitmap (cInt index) (cInt pages)
      some (.ok addr, map)
    else some (.ok 0, m.mmapBitmap)
  else some (.ok 0, m.mmapBitmap)

def mmapSearch (m : Mman) (pages : Nat) : Option (Except Errno Nat × List Word) := do
  let index ← bitmapFindNextZeroArea m.mmapBitmap m.mmapNumPages 0 pages
  if index + pages > m.mmapNumPages then some (.error .ENOMEM, m.mmapBitmap)
  else
    let map ← bitmapSet m.mmapBitmap (cInt index) (cInt pages)
    some (.ok (indexRangeToBaseAddr m index pages), map)

def enclaveMmap (m : Mman) (addr length : Nat) (mmapFixed : Bool) :
    Option (Except Errno Nat × Mman) :=
  let pages := divRoundup length pageSize
  -- Make sure addr is page aligned and size is greater than 0.
  if addr % pageSize ≠ 0 ∨ length = 0 then some (.error .EINVAL, m)
  else do
    let placed ← mmapPlaceAt m addr length pages mmapFixed
    let (ret, map) ← match placed with
      | (.ok 0, map) => mmapSearch { m with mmapBitmap := map } pages
      | done => some done
    match ret with
    | .ok p => some (.ok p, { m with mmapBitmap := map, usedPages := u64 (m.usedPages + pages) })
    | .error e => some (.error e, { m with mmapBitmap := map })

def enclaveMunmap (m : Mman) (addr length : Nat) : Option (Except Errno Unit × Mman) :=
  let pages := divRoundup length pageSize
  if addr % pageSize ≠ 0 ∨ length = 0 ∨ !inMmapRange m addr length then
    some (.error .EINVAL, m)
  else do
    let index := addrRangeToIndex m addr pages
    -- Only count pages that have been marked as mmapped before.
    let occupiedPages ← bitmapCountSetBits m.mmapBitmap m.mmapNumPages index pages
    let map ← bitmapClear m.mmapBitmap (cInt index) (cInt pages)
    some (.ok (),
      { m with mmapBitmap := map, usedPages := u64 ((m.usedPages : Int) - occupiedPages) })

def memcpy (mem : Nat → UInt8) (dst src n : Nat) : Nat → UInt8 :=
  fun a => if dst ≤ a ∧ a < dst + n then mem (src + (a - dst)) else mem a

/-- `enclave_mremap(old_addr, old_length, new_addr, new_length, mremap_fixed)`. The return
value of the final `enclave_munmap` is ignored. -/
def enclaveMremap (m : Mman) (oldAddr oldLength newAddr newLength : Nat) (mremapFixed : Bool) :
    Option (Except Errno Nat × Mman) :=
  if mremapFixed then some (.error .EINVAL, m)
  else do
    let (ret, m₁) ← enclaveMmap m newAddr newLength false
    match ret with
    | .error e => some (.error e, m₁)
    | .ok p =>
      let copied := { m₁ with
        mem := memcpy m₁.mem p oldAddr (if oldLength > newLength then newLength else oldLength) }
      let (_, m₂) ← enclaveMunmap copied oldAddr oldLength
      some (.ok p, m₂)

/-- `syscall_SYS_munmap(addr, length)`: addresses in the managed range go to the enclave
allocator, others to `host`, the host's `munmap`. -/
def syscallSYSMunmap (host : Nat → Nat → Int) (m : Mman) (addr length : Nat) :
    Option (Int × Mman) :=
  if inMmapRange m addr 0 then do
    let (_, m₁) ← enclaveMunmap m addr length
    some (0, m₁)
  else some (host addr length, m)

/-! ## Arithmetic that does not wrap -/

theorem u64_natCast {n : Nat} (h : n < 2 ^ 64) : u64 n = n := by
  unfold u64
  omega

theorem u64_eq {x : Int} {n : Nat} (hx : x = n) (h : n < 2 ^ 64) : u64 x = n := by
  rw [hx, u64_natCast h]

theorem cInt_natCast {n : Nat} (h : n < 2 ^ 31) : cInt n = n := by
  unfold cInt
  rw [Int.bmod_eq_of_le (by omega) (by omega)]

theorem ptrdiff_of_le {a b : Nat} (hab : b ≤ a) (h : a - b < 2 ^ 63) :
    ptrdiff a b = ((a - b : Nat) : Int) := by
  unfold ptrdiff
  rw [Int.bmod_eq_of_le (by omega) (by omega)]
  omega

theorem divRoundup_pageSize {length : Nat} (h : length ≤ 2 ^ 64 - 4096) :
    divRoundup length pageSize = (length + 4095) / 4096 := by
  unfold divRoundup pageSize
  rw [u64_eq (n := length + 4095) (by omega) (by omega)]

/-! ## The bitmap loops end, and what they return -/

/-- **Counting.** Inside the bitmap the loop ends with the number of set bits left to see.
Induction on the fuel; the search moves strictly forward. -/
theorem countSetBitsLoop_eq (map : List Word) {size stop : Nat} (hsize : size < 2 ^ 31)
    (hstop : stop ≤ size) :
    ∀ fuel pos retval, size < fuel + pos → pos ≤ size → retval + (stop - pos) < 2 ^ 32 →
      countSetBitsLoop map size stop (fuel + 1) (findNextBit map size pos % 2 ^ 32) retval
        = some (retval + setCount (bitAt map) pos (stop - pos)) := by
  intro fuel
  induction fuel with
  | zero => intro pos retval hfuel hpos; omega
  | succ fuel ih =>
    intro pos retval hfuel hpos hret
    have hnext := findNextBit_isNext map size pos
    have hbound : findNextBit map size pos < size + 64 := findNext_lt id map size pos
    rw [Nat.mod_eq_of_lt (a := findNextBit map size pos) (by omega)]
    unfold countSetBitsLoop
    by_cases hlt : findNextBit map size pos < stop
    · -- a set bit in the region: count it and go on behind it
      have hle : pos ≤ findNextBit map size pos := hnext.start_le (by omega)
      rw [if_pos hlt, setCount_of_isNext hnext hstop hlt,
        Nat.mod_eq_of_lt (a := findNextBit map size pos + 1) (by omega),
        Nat.mod_eq_of_lt (a := retval + 1) (by omega),
        ih (findNextBit map size pos + 1) (retval + 1) (by omega) (by omega) (by omega)]
      congr 1
      omega
    · rw [if_neg hlt, setCount_of_isNext_none hnext hstop (by omega), Nat.add_zero]

theorem bitmapCountSetBits_eq (map : List Word) {size start nr : Nat} (hsize : size < 2 ^ 31)
    (hroom : start + nr ≤ size) :
    bitmapCountSetBits map size start nr = some (setCount (bitAt map) start nr) := by
  unfold bitmapCountSetBits
  rw [u64_eq (n := start + nr) (by omega) (by omega)]
  have h := countSetBitsLoop_eq map hsize hroom (size + 1) start 0 (by omega) (by omega)
    (by omega)
  rw [h, Nat.zero_add, show start + nr - start = nr from by omega]

/-- **First fit.** The search loop ends, and an answer that leaves room for `nr` pages is
the start of a free run. Induction on the fuel: every turn starts behind a set bit. -/
theorem findNextZeroAreaLoop_eq (map : List Word) (size nr : Nat) :
    ∀ fuel start, size < fuel + start → start ≤ size →
      ∃ r, findNextZeroAreaLoop map size nr fuel start = some r
        ∧ (r + nr ≤ size → FreeRun (bitAt map) r nr) := by
  intro fuel
  induction fuel with
  | zero => intro start hfuel hstart; omega
  | succ fuel ih =>
    intro start hfuel hstart
    unfold findNextZeroAreaLoop
    simp only
    have hzero := findNextZeroBit_isNext map size start
    set index := findNextZeroBit map size start with hindex
    have hset := findNextBit_isNext map (index + nr) index
    split
    · exact ⟨index + nr, rfl, by omega⟩
    · rename_i hroom
      split
      · rename_i hi
        -- a set bit inside the candidate: restart right behind it
        have hle := hset.start_le hi
        have hstart' : start ≤ index := by
          rcases hzero.le with h | h
          · exact h
          · omega
        exact ih _ (by omega) (by omega)
      · rename_i hi
        refine ⟨index, rfl, ?_⟩
        intro _ i hlo hhi
        exact hset.none (by omega) i hlo hhi

theorem bitmapFindNextZeroArea_eq (map : List Word) (size nr : Nat) :
    ∃ r, bitmapFindNextZeroArea map size 0 nr = some r
      ∧ (r + nr ≤ size → FreeRun (bitAt map) r nr) :=
  findNextZeroAreaLoop_eq map size nr (size + 1) 0 (by omega) (by omega)

end RktIo.Mem
