import RktIo.Lib.CallRun
import RktIo.Mem.Release

/-!
# How many pages are reserved (`used_pages`, `syscall_SYS_sysinfo`)

`enclave_mmap` adds the number of pages of a request to `used_pages`, `enclave_munmap`
subtracts the number of set bits that it clears. In a non-debug build `replaced_pages` is
never computed, so a `MAP_FIXED` request counts the pages it maps again a second time.
-/

namespace RktIo.Mem

open WordBits CallRun List

variable {m m' : Mman} {length p addr : Nat}

theorem exists_pageIndex (hm : m.Wf) {i : Nat} (hi : i < m.mmapNumPages) :
    ∃ q ∈ managedPages m, pageIndex m q = i := by
  have hend := hm.end_eq
  have hal := hm.base_aligned
  cases htop : m.mmapTopdown with
  | false =>
    refine ⟨m.mmapBase / 4096 + i, ?_, ?_⟩
    · simp only [managedPages, Set.mem_ofPred_eq]
      omega
    · simp only [pageIndex, htop, Bool.false_eq_true, if_false]
      omega
  | true =>
    refine ⟨m.mmapEnd / 4096 - i, ?_, ?_⟩
    · simp only [managedPages, Set.mem_ofPred_eq]
      omega
    · simp only [pageIndex, htop, if_true]
      omega

end RktIo.Mem
