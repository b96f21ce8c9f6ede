import RktIo.Sgx.EnclaveSize

/-!
# The pages of a thread (`sgx/sgx.c`)

`process_pages` writes the pages of all threads from one page buffer. The buffer is zero before
the first thread, gets the fields of the thread local storage and is cleared for the TCS, which
stays in it. The stacks and save areas of all threads but the first one start with a copy of the
TCS of the thread before.
-/

namespace RktIo.Sgx

open Bytes List

/-! ## The loop -/

section Threads

variable (p : ThreadParms)

theorem mem_threadLoop {n off : Nat} {buf : Nat → BitVec 8} {t : ThreadPages} (hoff : off < 2 ^ 64)
    (ht : t ∈ p.threadLoop n off buf) :
    ∃ j < n, ∃ buf', t = (p.threadPages (toSize (off + pageSize * (j * p.pages) : Nat)) buf').1 := by
  induction n generalizing off buf with
  | zero => cases ht
  | succ n ih =>
    rcases mem_cons.mp ht with rfl | ht
    · refine ⟨0, Nat.succ_pos n, buf, ?_⟩
      rw [Nat.zero_mul, Nat.mul_zero, Nat.add_zero, toSize_of_lt hoff]
    · -- `off` has wrapped for the rest of the loop, so the sums agree as `size_t` only
      obtain ⟨j, hj, buf', rfl⟩ := ih (toSize_lt _) ht
      refine ⟨j + 1, Nat.succ_lt_succ hj, buf', ?_⟩
      push_cast
      rw [toSize_toSize_add, ThreadParms.pages]
      push_cast
      ring_nf

/-- The bytes of the page of the thread local storage that are assigned for a thread: `self`,
`tcs` and `enclave_parms`, `tls`, and the fields of `enclave_parms_t`. -/
def TlsAssigned (parmsOffset x : Nat) : Prop :=
  let enc := schedTcbBaseSize + parmsOffset
  x < 24 ∨ (48 ≤ x ∧ x < 56) ∨ (enc ≤ x ∧ x < enc + 48) ∨ (enc + 80 ≤ x ∧ x < enc + 120)

theorem tlsFields_of_not_assigned {x : Nat} (hx : ¬ TlsAssigned p.parmsOffset x)
    (buf : Nat → BitVec 8) (stackStart ossa tls : Nat) :
    storeFields buf (p.tlsFields stackStart ossa tls) x = buf x := by
  refine storeFields_of_notMem (fun f hf => ?_) buf
  unfold TlsAssigned at hx
  simp only [ThreadParms.tlsFields, mem_cons, not_mem_nil, or_false] at hf
  unfold Field.Covers
  rcases hf with rfl | rfl | rfl | rfl | rfl | rfl | rfl | rfl | rfl | rfl | rfl | rfl | rfl | rfl |
    rfl <;> dsimp only at * <;> omega

theorem tcsFields_nssa (ossa tls : Nat) :
    storeFields (fun _ => 0) (p.tcsFields ossa tls) 28 = 2 := by
  -- no field behind `nssa` is stored over it
  have hcover : ∀ f ∈ (p.tcsFields ossa tls).drop 2, ¬ f.Covers 28 := by
    intro f hf
    simp only [ThreadParms.tcsFields, drop_succ_cons, drop_zero, mem_cons,
      not_mem_nil, or_false] at hf
    unfold Field.Covers
    rcases hf with rfl | rfl | rfl | rfl | rfl <;> dsimp only <;> omega
  exact storeFields_of_notMem hcover _

/-- The stack and the save area of the thread are zero, and its thread local storage is zero
except for what is assigned there. -/
structure ThreadPages.Zeroed (parmsOffset : Nat) (t : ThreadPages) : Prop where
  stack : ∀ c ∈ t.stack, c.page = zeroPage
  ossa : ∀ c ∈ t.ossa, c.page = zeroPage
  tls : ∀ x, ¬ TlsAssigned parmsOffset x.val → t.tls.page x = 0

theorem threadPages_zeroed (off : Nat) :
    (p.threadPages off fun _ => 0).1.Zeroed p.parmsOffset where
  stack c hc := by
    obtain ⟨k, -, rfl⟩ := mem_map.mp hc
    rfl
  ossa c hc := by
    obtain ⟨k, -, rfl⟩ := mem_map.mp hc
    rfl
  tls x hx := tlsFields_of_not_assigned p hx _ _ _ _

theorem threadPages_not_zeroed (off ossa tls : Nat) :
    ¬ (p.threadPages off (storeFields (fun _ => 0) (p.tcsFields ossa tls))).1.Zeroed
      p.parmsOffset := by
  have hfree : ¬ TlsAssigned p.parmsOffset 28 := by
    unfold TlsAssigned schedTcbBaseSize
    omega
  have hnssa : (p.threadPages off (storeFields (fun _ => 0) (p.tcsFields ossa tls))).1.tls.page
      ⟨28, by decide⟩ = 2 :=
    (tlsFields_of_not_assigned p hfree _ _ _ _).trans (tcsFields_nssa p ossa tls)
  intro hzero
  have hbyte := hnssa.symm.trans (hzero.tls ⟨28, by decide⟩ hfree)
  exact absurd hbyte (by decide)

end Threads

def Run.ThreadsZeroed (r : Run) : Prop := ∀ t ∈ r.threads, t.Zeroed r.parmsOffset

/-- For every library, heap, stack and number of save areas: the pages of the threads start zeroed
if there is at most one thread, and only then. -/
theorem threads_zeroed_iff {img : ElfImage} {heap stack : Nat} {tcsp : Int} {nssa : Nat}
    {mapHeapFirst : Bool} {run : Run}
    (hrun : processPages img heap stack tcsp nssa mapHeapFirst = some run) :
    run.ThreadsZeroed ↔ tcsp ≤ 1 := by
  obtain ⟨codeEnd, i, entry, -, -, hoff, -, -, -, hthreads⟩ := processPages_eq_some hrun
  have hparms : run.parmsOffset =
      (threadParms img heap stack tcsp nssa mapHeapFirst codeEnd i entry).parmsOffset := hoff
  unfold Run.ThreadsZeroed
  rw [hthreads, hparms]
  generalize threadParms img heap stack tcsp nssa mapHeapFirst codeEnd i entry = p
  obtain hn | hn | ⟨n, hn⟩ : tcsp.toNat = 0 ∨ tcsp.toNat = 1 ∨ ∃ n, tcsp.toNat = n + 2 := by
    rcases h : tcsp.toNat with _ | _ | n
    · exact .inl rfl
    · exact .inr (.inl rfl)
    · exact .inr (.inr ⟨n, rfl⟩)
  · rw [hn]
    exact iff_of_true (by simp [ThreadParms.threadLoop]) (by omega)
  · rw [hn]
    exact iff_of_true (List.forall_mem_singleton.mpr (threadPages_zeroed p _)) (by omega)
  · -- the second thread starts with what the first one left in the buffer
    rw [hn]
    refine iff_of_false (fun hall => ?_) (by omega)
    exact threadPages_not_zeroed p _ _ _
      (hall _ (List.mem_cons_of_mem _ List.mem_cons_self))

theorem threads_zeroed_iff_oneThread :
    ∃ run, processPages smallLibrary 1 1 1 2 true = some run ∧ run.ThreadsZeroed := by
  have hsome : (processPages smallLibrary 1 1 1 2 true).isSome := by decide +kernel
  obtain ⟨run, hrun⟩ := Option.isSome_iff_exists.mp hsome
  exact ⟨run, hrun, (threads_zeroed_iff hrun).mpr (by decide)⟩

/-- Two threads with a stack of one page: byte 28 of the stack, of the two save areas and of the
thread local storage. -/
theorem second_stack_not_zero :
    (processPages smallLibrary 1 1 2 2 true).map (fun run => run.threads.map fun t =>
        (t.stack ++ t.ossa ++ [t.tls]).map fun c => c.page ⟨28, by decide⟩) =
      some [[0, 0, 0, 0], [2, 2, 2, 2]] := by
  decide +kernel

end RktIo.Sgx
