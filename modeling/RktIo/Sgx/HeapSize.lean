import RktIo.Sgx.SignLoad
import RktIo.Sgx.ThreadPages

/-!
# The sizes of heap and stack (`sgx/sgx.c`, `sgx/sgxlkl_sign.c`)

A size goes from the command line of the signing tool to `enclave_sign`, from there into the
parameters in the library, and from these to the loader. `enclave_sign` and `enclave_update_heap`
count in pages, the parameters are in bytes.

If no heap size is given, both functions take what is left of the enclave page cache. Only
`enclave_sign` looks whether something is left. The tool hands over the number of bytes of the
heap where a number of pages is expected.

## The architecture

* `enclaveSign_spec`, `enclaveUpdateHeap_spec` — the sizes are in the library afterwards;
* `loaderRun_spec` — the loader takes them from there.
-/

namespace RktIo.Sgx

open Bytes

/-! ## The size that is chosen -/

def signHeap (heap size : Nat) : Nat :=
  if heap = 0 then if size < 0x5d7f then 0x5d7f - size else 32768 else heap

def updateHeap (heap size : Nat) : Nat := if heap = 0 then toSize (0x5d7f - size) else heap

def signSize (img : ElfImage) (heap stack : Nat) (tcsp : Int) : Nat :=
  getEnclaveSize heap stack tcsp 1 2 (toInt32 (toSize (getLoadableSize img))) 1

def totalSize (heap size newHeap : Nat) : Nat :=
  if heap = 0 then toSize (size + newHeap) else size

section Choice

variable (sign : Nat → List Measured → Nat → BitVec 8) (img : ElfImage) (heapFirst : Bool)

theorem enclaveSign_eq (heap stack : Nat) (tcsp : Int) :
    enclaveSign sign img heap stack tcsp heapFirst = (do
      let size := signSize img heap stack tcsp
      let s ← fillAndMeasure img (signHeap heap size) stack
        (totalSize heap size (signHeap heap size)) tcsp heapFirst
      let offset ← s.image.noteSigstruct.bind Shdr.intOffset
      return { s with image := s.image.putSigstruct offset (sign s.size s.measured) }) := rfl

theorem enclaveUpdateHeap_eq (newHeap : Nat) :
    enclaveUpdateHeap sign img newHeap heapFirst = (do
      let enc ← getEnclaveParms img
      let tcsp := toInt32 (load img.file (enc + parmsTcsn) 8)
      let stack := load img.file (enc + parmsStackSize) 8 / pageSize
      let heap := newHeap / pageSize
      let size := signSize img heap stack tcsp
      let s ← fillAndMeasure { img with file := store img.file (enc + parmsHeapSize) 8 newHeap }
        (updateHeap heap size) stack (totalSize heap size (updateHeap heap size)) tcsp heapFirst
      let offset ← s.image.noteSigstruct
      return { s with
        image := s.image.putSigstruct offset.offset.toNat (sign s.size s.measured) }) := rfl

end Choice

/-! ## What stands in the library -/

section Spec

variable {img : ElfImage} {tdata sig : Shdr} {i : Nat} (hwf : img.WellFormed tdata sig i)
  (hout : img.SigOutside sig) (sign : Nat → List Measured → Nat → BitVec 8) (heapFirst : Bool)

include hwf hout

theorem fillAndMeasure_signed {heap stack : Nat} (hheap : heap * pageSize < 2 ^ 64)
    (hstack : stack * pageSize < 2 ^ 64) (size : Nat) (tcsp : Int) :
    ∃ s, fillAndMeasure img heap stack size tcsp heapFirst = some s ∧
      s.image.noteSigstruct = some sig ∧
      ∀ sigstruct, (s.image.putSigstruct sig.offset.toNat sigstruct).WellFormed tdata sig i ∧
        (s.image.putSigstruct sig.offset.toNat sigstruct).HasParms (parmsAt tdata i) heap stack
          tcsp := by
  obtain ⟨filled, run, hfill, hwf', hparms, hphdrs, -⟩ :=
    fillAndMeasure_spec hwf hheap hstack size tcsp heapFirst
  have hout' : filled.SigOutside sig := by
    unfold ElfImage.SigOutside ElfImage.loads
    rw [hphdrs]
    exact hout
  refine ⟨_, hfill, hwf'.sig_eq, fun sigstruct => ?_⟩
  obtain ⟨hwf'', hparms', -⟩ := putSigstruct_spec hwf' hout' hparms sigstruct
  exact ⟨hwf'', hparms'⟩

theorem enclaveSign_spec {heap stack : Nat} {tcsp : Int}
    (hheap : signHeap heap (signSize img heap stack tcsp) * pageSize < 2 ^ 64)
    (hstack : stack * pageSize < 2 ^ 64) :
    ∃ s, enclaveSign sign img heap stack tcsp heapFirst = some s ∧
      s.image.WellFormed tdata sig i ∧
      s.image.HasParms (parmsAt tdata i) (signHeap heap (signSize img heap stack tcsp)) stack
        tcsp := by
  obtain ⟨s, hs, hnote, hsigned⟩ := fillAndMeasure_signed hwf hout heapFirst hheap hstack
    (totalSize heap (signSize img heap stack tcsp) (signHeap heap (signSize img heap stack tcsp)))
    tcsp
  have hoffset : s.image.noteSigstruct.bind Shdr.intOffset = some sig.offset.toNat :=
    Option.bind_eq_some_iff.mpr
      ⟨sig, hnote, Shdr.intOffset_eq hwf.sig_offset.1 hwf.sig_offset.2⟩
  refine ⟨{ s with image := s.image.putSigstruct sig.offset.toNat (sign s.size s.measured) }, ?_,
    hsigned (sign s.size s.measured)⟩
  rw [enclaveSign_eq]
  exact Option.bind_eq_some_iff.mpr ⟨s, hs, Option.bind_eq_some_iff.mpr ⟨_, hoffset, rfl⟩⟩

theorem enclaveUpdateHeap_spec {newHeap heap stack : Nat} {tcsp : Int} (hheap : newHeap / pageSize = heap)
    (htcsn : toInt32 (load img.file (parmsAt tdata i + parmsTcsn) 8) = tcsp)
    (hstack : load img.file (parmsAt tdata i + parmsStackSize) 8 / pageSize = stack)
    (hnew : updateHeap heap (signSize img heap stack tcsp) * pageSize < 2 ^ 64) :
    ∃ s, enclaveUpdateHeap sign img newHeap heapFirst = some s ∧
      s.image.WellFormed tdata sig i ∧
      s.image.HasParms (parmsAt tdata i) (updateHeap heap (signSize img heap stack tcsp)) stack
        tcsp := by
  have hbytes : stack * pageSize < 2 ^ 64 := by
    have hlt := load_lt img.file (parmsAt tdata i + parmsStackSize) 8
    have hle := Nat.div_mul_le_self (load img.file (parmsAt tdata i + parmsStackSize) 8) pageSize
    rw [hstack] at hle
    omega
  have hwf' : ({ img with
      file := store img.file (parmsAt tdata i + parmsHeapSize) 8 newHeap } : ElfImage).WellFormed
        tdata sig i := by
    refine hwf.of_eq fun x _ hhigh => store_of_notMem ?_
    unfold parmsHeapSize
    omega
  obtain ⟨s, hs, hnote, hsigned⟩ := fillAndMeasure_signed hwf' hout heapFirst hnew hbytes
    (totalSize heap (signSize img heap stack tcsp) (updateHeap heap (signSize img heap stack tcsp)))
    tcsp
  refine ⟨{ s with image := s.image.putSigstruct sig.offset.toNat (sign s.size s.measured) }, ?_,
    hsigned (sign s.size s.measured)⟩
  rw [enclaveUpdateHeap_eq]
  refine Option.bind_eq_some_iff.mpr ⟨_, hwf.getEnclaveParms_eq, ?_⟩
  simp only [hheap, htcsn, hstack]
  exact Option.bind_eq_some_iff.mpr ⟨s, hs, Option.bind_eq_some_iff.mpr ⟨sig, hnote, rfl⟩⟩

end Spec

/-! ## What the loader makes of it -/

def heapPages (img : ElfImage) : Option Nat :=
  (getEnclaveParms img).map fun enc => load img.file (enc + parmsHeapSize) 8 / pageSize

def loaderRun (img : ElfImage) (mapHeapFirst : Bool) : Option Run := do
  let enc ← getEnclaveParms img
  processPages img (load img.file (enc + parmsHeapSize) 8 / pageSize)
    (load img.file (enc + parmsStackSize) 8 / pageSize)
    (toInt32 (load img.file (enc + parmsTcsn) 8)) 2 mapHeapFirst

section Loader

variable {img : ElfImage} {tdata sig : Shdr} {i heap stack : Nat} {tcsp : Int}
  (hwf : img.WellFormed tdata sig i)
  (hparms : img.HasParms (parmsAt tdata i) heap stack tcsp)

include hwf hparms

theorem heapPages_eq : heapPages img = some heap := by
  rw [heapPages, hwf.getEnclaveParms_eq, Option.map_some, hparms.heapSize,
    Nat.mul_div_cancel heap (by decide)]

theorem loaderRun_spec (hlow : -2 ^ 31 ≤ tcsp) (hhigh : tcsp < 2 ^ 31) (ubase : Nat)
    (mapHeapFirst : Bool) :
    ∃ l run, createEnclaveMem img ubase none mapHeapFirst = some l ∧
      loaderRun img mapHeapFirst = some run ∧ l.pages = run.calls.map (addPage ubase) ∧
      run.heapFirst.length + run.heapLast.length = heap ∧
      ∀ t ∈ run.threads, t.stack.length = stack := by
  obtain ⟨run, hrun⟩ := hwf.processPages_isSome heap stack tcsp 2 mapHeapFirst
  have hload := createEnclaveMem_eq hwf hparms hlow hhigh hrun ubase none rfl
  rw [if_pos (by simp)] at hload
  refine ⟨_, run, hload, ?_, rfl, ?_⟩
  · refine Option.bind_eq_some_iff.mpr ⟨_, hwf.getEnclaveParms_eq, ?_⟩
    rw [hparms.heapSize, hparms.stackSize, hparms.tcsn, Nat.mul_div_cancel heap (by decide),
      Nat.mul_div_cancel stack (by decide), toInt32_toSize hlow hhigh]
    exact hrun
  · obtain ⟨codeEnd, j, entry, -, -, -, -, hfirst, hlast, hthreads⟩ := processPages_eq_some hrun
    refine ⟨?_, fun t ht => ?_⟩
    · rw [hfirst, hlast]
      cases mapHeapFirst <;> simp [repeatPage]
    · rw [hthreads] at ht
      obtain ⟨k, -, buf, rfl⟩ := mem_threadLoop _ (toSize_lt _) ht
      simp [ThreadParms.threadPages, repeatPage, threadParms]

end Loader

/-! ## No heap size -/

def restPages (img : ElfImage) (stack tcsp : Nat) : Int :=
  1 + tcsp * (stack + 4) + getLoadableSize img

def defaultHeap (rest : Int) : Int := if rest < 0x5d7f then 0x5d7f - rest else 32768

/-- The heap is the default, `size` and `size + heap` are computed without wrap-around, and the
loader reads the heap back. -/
structure ChoosesDefault (rest : Int) (size heap : Nat) (signed : Option Signed) : Prop where
  chosen : (heap : Int) = defaultHeap rest
  size_exact : (size : Int) = rest
  total_exact : (totalSize 0 size heap : Int) = rest + heap
  readBack : ∃ s, signed = some s ∧ heapPages s.image = some heap

theorem signSize_cast (img : ElfImage) (stack tcsp : Nat) :
    (signSize img 0 stack tcsp : Int) = restPages img stack tcsp % 2 ^ 64 := by
  unfold signSize getEnclaveSize restPages
  rw [toSize_cast, toInt32_getLoadableSize]
  push_cast
  ring_nf

theorem defaultHeap_exact {rest : Int} {size heap : Nat} (hlow : 0 ≤ rest) (hhigh : rest < 0x5d7f)
    (hsize : (size : Int) = rest) (hheap : (heap : Int) = defaultHeap rest) :
    heap * pageSize < 2 ^ 64 ∧ (totalSize 0 size heap : Int) = rest + heap := by
  rw [defaultHeap, if_pos hhigh] at hheap
  rw [totalSize, if_pos rfl, toSize_cast, hsize, pageSize]
  omega

section Default

variable {img : ElfImage} {tdata sig : Shdr} {i stack tcsp : Nat}

/-- For every library, stack size and number of threads: `enclave_sign` and `enclave_update_heap`
choose the default heap if the rest of the enclave is smaller than the enclave page cache, and only
then. -/
theorem default_heap_iff (hwf : img.WellFormed tdata sig i) (hout : img.SigOutside sig)
    (htcsn : load img.file (parmsAt tdata i + parmsTcsn) 8 = tcsp) (hthreads : tcsp < 2 ^ 31)
    (hstack : load img.file (parmsAt tdata i + parmsStackSize) 8 = stack * pageSize)
    (sign : Nat → List Measured → Nat → BitVec 8) (heapFirst : Bool) :
    (ChoosesDefault (restPages img stack tcsp) (signSize img 0 stack tcsp)
        (signHeap 0 (signSize img 0 stack tcsp)) (enclaveSign sign img 0 stack tcsp heapFirst) ∧
      ChoosesDefault (restPages img stack tcsp) (signSize img 0 stack tcsp)
        (updateHeap 0 (signSize img 0 stack tcsp)) (enclaveUpdateHeap sign img 0 heapFirst)) ↔
      0 ≤ restPages img stack tcsp ∧ restPages img stack tcsp < 0x5d7f := by
  have hcast := signSize_cast img stack tcsp
  have hsign : ∀ size, signHeap 0 size = if size < 0x5d7f then 0x5d7f - size else 32768 :=
    fun size => if_pos rfl
  have hupdate : ∀ size, updateHeap 0 size = toSize (0x5d7f - size) := fun size => if_pos rfl
  have htotal : ∀ size heap, totalSize 0 size heap = toSize (size + heap) :=
    fun size heap => if_pos rfl
  have hbytes : stack * pageSize < 2 ^ 64 := hstack ▸ load_lt _ _ 8
  constructor
  · rintro ⟨-, hchosen, hsize, htot, -⟩
    -- a difference that wraps around does so again when the size is added
    have hdiff := toSize_cast (0x5d7f - signSize img 0 stack tcsp)
    rw [← hupdate] at hdiff
    rw [htotal, toSize_cast] at htot
    unfold defaultHeap at hchosen
    split at hchosen <;> omega
  · rintro ⟨hlow, hhigh⟩
    have hsize : (signSize img 0 stack tcsp : Int) = restPages img stack tcsp := by
      rw [hcast]
      omega
    have hsignHeap : (signHeap 0 (signSize img 0 stack tcsp) : Int) =
        defaultHeap (restPages img stack tcsp) := by
      rw [hsign, defaultHeap, if_pos hhigh, if_pos (by omega)]
      omega
    have hupdateHeap : (updateHeap 0 (signSize img 0 stack tcsp) : Int) =
        defaultHeap (restPages img stack tcsp) := by
      rw [hupdate, defaultHeap, if_pos hhigh, toSize_cast]
      omega
    obtain ⟨hsignBytes, hsignTotal⟩ := defaultHeap_exact hlow hhigh hsize hsignHeap
    obtain ⟨hupdateBytes, hupdateTotal⟩ := defaultHeap_exact hlow hhigh hsize hupdateHeap
    obtain ⟨s, hs, hwf', hparms⟩ := enclaveSign_spec hwf hout sign heapFirst hsignBytes hbytes
    obtain ⟨s', hs', hwf'', hparms'⟩ := enclaveUpdateHeap_spec hwf hout sign heapFirst
      (Nat.zero_div pageSize) (by rw [htcsn, toInt32_of_lt hthreads])
      (by rw [hstack, Nat.mul_div_cancel stack (by decide)]) hupdateBytes
    exact ⟨⟨hsignHeap, hsize, hsignTotal, s, hs, heapPages_eq hwf' hparms⟩,
      ⟨hupdateHeap, hsize, hupdateTotal, s', hs', heapPages_eq hwf'' hparms'⟩⟩

end Default

def preparedLibrary (stack tcsp : Nat) : ElfImage :=
  { signableLibrary with
    file := storeFields signableLibrary.file
      [(0x100 + parmsTcsn, 8, tcsp), (0x100 + parmsStackSize, 8, stack * pageSize)] }

theorem preparedLibrary_spec {stack tcsp : Nat} (hstack : stack * pageSize < 2 ^ 64)
    (htcsp : tcsp < 2 ^ 64) :
    (preparedLibrary stack tcsp).WellFormed ⟨0x100, 0x170⟩ ⟨0x1000, 0x710⟩ 0 ∧
    load (preparedLibrary stack tcsp).file (0x100 + parmsTcsn) 8 = tcsp ∧
    load (preparedLibrary stack tcsp).file (0x100 + parmsStackSize) 8 = stack * pageSize := by
  have hword : ∀ n < 2 ^ 64, n % 256 ^ 8 = n := by omega
  refine ⟨signableLibrary_wellFormed.of_eq fun x _ hhigh => ?_, ?_, ?_⟩
  · have hlt : x < 0x108 := hhigh
    refine (store_of_notMem ?_).trans (store_of_notMem ?_) <;> dsimp only [parmsTcsn, parmsStackSize]
      <;> omega
  · have hapart : 0x100 + parmsTcsn + 8 ≤ 0x100 + parmsStackSize := by decide
    exact (load_store_of_disjoint (.inl hapart)).trans (load_store.trans (hword _ htcsp))
  · exact load_store.trans (hword _ hstack)

theorem default_heap_iff_eightThreads :
    ChoosesDefault 98 (signSize (preparedLibrary 8 8) 0 8 8)
        (signHeap 0 (signSize (preparedLibrary 8 8) 0 8 8))
        (enclaveSign (fun _ _ _ => 0) (preparedLibrary 8 8) 0 8 8 true) ∧
      ChoosesDefault 98 (signSize (preparedLibrary 8 8) 0 8 8)
        (updateHeap 0 (signSize (preparedLibrary 8 8) 0 8 8))
        (enclaveUpdateHeap (fun _ _ _ => 0) (preparedLibrary 8 8) 0 true) := by
  obtain ⟨hwf, htcsn, hstack⟩ := preparedLibrary_spec (show 8 * pageSize < 2 ^ 64 by decide)
    (show 8 < 2 ^ 64 by decide)
  exact (default_heap_iff hwf signableLibrary_sigOutside htcsn (by decide) hstack (fun _ _ _ => 0)
    true).mpr (by decide +kernel)

/-- 263 threads with a stack of 87 pages fill the enclave page cache: `enclave_sign` gives 128 MB of
heap to the library, and `enclave_update_heap` leaves it without one. With 2000 threads, the
difference wraps around. -/
theorem default_heap_differs :
    (∃ s s', enclaveSign (fun _ _ _ => 0) (preparedLibrary 87 263) 0 87 263 true = some s ∧
      enclaveUpdateHeap (fun _ _ _ => 0) (preparedLibrary 87 263) 0 true = some s' ∧
      heapPages s.image = some 32768 ∧ heapPages s'.image = some 0) ∧
    signHeap 0 (signSize signableLibrary 0 8 2000) = 32768 ∧
    updateHeap 0 (signSize signableLibrary 0 8 2000) = 2 ^ 64 - 67 := by
  refine ⟨?_, by decide +kernel, by decide +kernel⟩
  obtain ⟨hwf, htcsn, hstack⟩ := preparedLibrary_spec (show 87 * pageSize < 2 ^ 64 by decide)
    (show 263 < 2 ^ 64 by decide)
  have hsize : signSize (preparedLibrary 87 263) 0 87 263 = 0x5d7f := by decide +kernel
  have hsign : signHeap 0 (signSize (preparedLibrary 87 263) 0 87 263) = 32768 := by
    rw [hsize]
    decide
  have hupdate : updateHeap 0 (signSize (preparedLibrary 87 263) 0 87 263) = 0 := by
    rw [hsize]
    decide
  have hsignBytes : signHeap 0 (signSize (preparedLibrary 87 263) 0 87 263) * pageSize < 2 ^ 64 := by
    rw [hsign]
    decide
  have hupdateBytes : updateHeap 0 (signSize (preparedLibrary 87 263) 0 87 263) * pageSize <
      2 ^ 64 := by
    rw [hupdate]
    decide
  obtain ⟨s, hs, hwf', hparms⟩ := enclaveSign_spec hwf signableLibrary_sigOutside (fun _ _ _ => 0)
    true hsignBytes (by decide)
  obtain ⟨s', hs', hwf'', hparms'⟩ := enclaveUpdateHeap_spec hwf signableLibrary_sigOutside
    (fun _ _ _ => 0) true (Nat.zero_div pageSize)
    ((congrArg (fun n : Nat => toInt32 n) htcsn).trans (by decide))
    ((congrArg (· / pageSize) hstack).trans (by decide)) hupdateBytes
  rw [hsign] at hparms
  rw [hupdate] at hparms'
  exact ⟨s, s', hs, hs', heapPages_eq hwf' hparms, heapPages_eq hwf'' hparms'⟩

/-! ## The signing tool -/

def divRoundup (x y : Int) : Int := (x + (y - 1)).tdiv y

def signTool (sign : Nat → List Measured → Nat → BitVec 8) (img : ElfImage)
    (heapsizeArg stacksizeArg threadsArg supportNonPieArg : Int) : Option Signed :=
  enclaveSign sign img (toSize heapsizeArg) (toSize (divRoundup stacksizeArg pageSize))
    (toInt32 threadsArg) (supportNonPieArg ≠ 0)

section Tool

variable {img : ElfImage} {tdata sig : Shdr} {i heapsize stacksize : Nat}

/-- The enclave that `create_enclave_mem` builds from the library that the tool has signed has the
sizes in pages, rounded up. -/
def ToolSizes (signed : Option Signed) (ubase : Nat) (mapHeapFirst : Bool)
    (heapsize stacksize : Nat) : Prop :=
  ∃ s l run, signed = some s ∧ createEnclaveMem s.image ubase none mapHeapFirst = some l ∧
    loaderRun s.image mapHeapFirst = some run ∧ l.pages = run.calls.map (addPage ubase) ∧
    run.heapFirst.length + run.heapLast.length = (heapsize + (pageSize - 1)) / pageSize ∧
    ∀ t ∈ run.threads, t.stack.length = (stacksize + (pageSize - 1)) / pageSize

theorem signTool_spec (hwf : img.WellFormed tdata sig i) (hout : img.SigOutside sig)
    (hpos : 0 < heapsize) (hheap : heapsize * pageSize < 2 ^ 64)
    (hstack : stacksize + pageSize ≤ 2 ^ 63) (threads supportNonPie : Int)
    (sign : Nat → List Measured → Nat → BitVec 8) (ubase : Nat) (mapHeapFirst : Bool) :
    ∃ s l run, signTool sign img heapsize stacksize threads supportNonPie = some s ∧
      createEnclaveMem s.image ubase none mapHeapFirst = some l ∧
      loaderRun s.image mapHeapFirst = some run ∧ l.pages = run.calls.map (addPage ubase) ∧
      run.heapFirst.length + run.heapLast.length = heapsize ∧
      ∀ t ∈ run.threads, t.stack.length = (stacksize + (pageSize - 1)) / pageSize := by
  have hheapArg : toSize (heapsize : Int) = heapsize := by
    rw [pageSize] at hheap
    exact toSize_of_lt (by omega)
  have hround : divRoundup stacksize pageSize = ((stacksize + (pageSize - 1)) / pageSize : Nat) := by
    unfold divRoundup
    rw [Int.tdiv_eq_ediv_of_nonneg (by rw [pageSize]; omega), pageSize]
    omega
  have hbytes : (stacksize + (pageSize - 1)) / pageSize * pageSize < 2 ^ 64 := by
    have hle := Nat.div_mul_le_self (stacksize + (pageSize - 1)) pageSize
    omega
  have hstackArg : toSize (divRoundup stacksize pageSize) =
      (stacksize + (pageSize - 1)) / pageSize := by
    rw [hround, toSize_of_lt]
    rw [pageSize] at *
    omega
  have hsignHeap : ∀ size, signHeap heapsize size = heapsize := fun size => if_neg hpos.ne'
  have hnew : signHeap heapsize (signSize img heapsize ((stacksize + (pageSize - 1)) / pageSize)
      (toInt32 threads)) * pageSize < 2 ^ 64 := by
    rw [hsignHeap]
    exact hheap
  obtain ⟨s, hs, hwf', hparms⟩ :=
    enclaveSign_spec hwf hout sign (supportNonPie ≠ 0) hnew hbytes
  rw [hsignHeap] at hparms
  obtain ⟨hlow, hhigh⟩ := toInt32_range threads
  obtain ⟨l, run, hload⟩ := loaderRun_spec hwf' hparms hlow hhigh ubase mapHeapFirst
  refine ⟨s, l, run, ?_, hload⟩
  rw [signTool, hheapArg, hstackArg]
  exact hs

/-- For every heap size and stack size in bytes: the enclave that is loaded has the sizes that the
tool was asked for only if the heap is to have one byte. -/
theorem tool_sizes_iff (hwf : img.WellFormed tdata sig i) (hout : img.SigOutside sig)
    (hpos : 0 < heapsize) (hheap : heapsize * pageSize < 2 ^ 64)
    (hstack : stacksize + pageSize ≤ 2 ^ 63) (threads supportNonPie : Int)
    (sign : Nat → List Measured → Nat → BitVec 8) (ubase : Nat) (mapHeapFirst : Bool) :
    ToolSizes (signTool sign img heapsize stacksize threads supportNonPie) ubase mapHeapFirst
        heapsize stacksize ↔
      heapsize = 1 := by
  obtain ⟨s, l, run, hs, hl, hrun, hpages, hlength, hthreads⟩ := signTool_spec hwf hout hpos hheap
    hstack threads supportNonPie sign ubase mapHeapFirst
  constructor
  · rintro ⟨s', l', run', hs', -, hrun', -, hlength', -⟩
    rw [hs] at hs'
    cases hs'
    rw [hrun] at hrun'
    cases hrun'
    rw [hlength, pageSize] at hlength'
    omega
  · rintro rfl
    exact ⟨s, l, run, hs, hl, hrun, hpages, hlength, hthreads⟩

end Tool

theorem tool_sizes_iff_oneByte :
    ToolSizes (signTool (fun _ _ _ => 0) signableLibrary (1 : Nat) (32768 : Nat) 8 0) 0x10000 false
      1 32768 :=
  (tool_sizes_iff signableLibrary_wellFormed signableLibrary_sigOutside (by decide) (by decide)
    (by decide) 8 0 (fun _ _ _ => 0) 0x10000 false).mpr rfl

/-- A heap of 4096 bytes gets 4096 pages. -/
theorem page_of_heap_gets_4096 :
    ∃ s run, signTool (fun _ _ _ => 0) signableLibrary (4096 : Nat) (32768 : Nat) 8 0 = some s ∧
      loaderRun s.image false = some run ∧
      run.heapFirst.length + run.heapLast.length = 4096 ∧ (4096 + (pageSize - 1)) / pageSize = 1 := by
  obtain ⟨s, l, run, hs, -, hrun, -, hlength, -⟩ := signTool_spec signableLibrary_wellFormed
    signableLibrary_sigOutside (show 0 < 4096 by decide) (by decide)
    (show 32768 + pageSize ≤ 2 ^ 63 by decide) 8 0 (fun _ _ _ => 0) 0x10000 false
  exact ⟨s, run, hs, hrun, hlength, by decide⟩

end RktIo.Sgx
