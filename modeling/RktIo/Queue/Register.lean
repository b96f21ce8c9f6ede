import RktIo.Config.Options
import RktIo.Queue.MpmcInv

/-!
# The queues for host calls (`register_queues` of `main/sgxlkl_run.c`)

The launcher makes a queue for system calls and one for their results, with room for a call of
every user-level thread and every enclave thread. The room is rounded up in bytes: a cell has 16
bytes, and `next_pow2` of 16 times the number of calls is divided by 16 again in `newmpmcq`. That is
a power of two from 2 on, as `newmpmcq` demands, if there are at least two calls; for one call there
is one cell, for none there is half a cell.
-/

namespace RktIo.Queue

open BitVec

variable {α : Type}

/-! ## Rounding -/

def nextPow2Loop (x : BitVec 64) : Nat → BitVec 64 → Option (BitVec 64)
  | 0, _ => none
  | rounds + 1, n => if n < x then nextPow2Loop x rounds (n <<< 1) else some n

def nextPow2 (x : BitVec 64) : Option (BitVec 64) := nextPow2Loop x 65 1

variable {k : Nat}

theorem twoPow_shift (hk : k < 63) :
    BitVec.twoPow 64 k <<< 1 = BitVec.twoPow 64 (k + 1) := by
  apply eq_of_toNat_eq
  have hlt : 2 ^ (k + 1) < 2 ^ 64 := Nat.pow_lt_pow_right (by decide) (by omega)
  rw [toNat_shiftLeft, toNat_twoPow_of_lt (by omega),
    toNat_twoPow_of_lt (by omega), Nat.shiftLeft_eq, ← pow_add, Nat.mod_eq_of_lt hlt]

theorem nextPow2Loop_eq {x : BitVec 64} (hx : x.toNat ≤ 2 ^ 63) {rounds : Nat}
    (hk : k ≤ Nat.clog 2 x.toNat) (hrounds : Nat.clog 2 x.toNat < k + rounds) :
    nextPow2Loop x rounds (BitVec.twoPow 64 k) = some (BitVec.twoPow 64 (Nat.clog 2 x.toNat)) := by
  have hclog : Nat.clog 2 x.toNat ≤ 63 := Nat.clog_le_of_le_pow hx
  induction rounds generalizing k with
  | zero => omega
  | succ rounds ih =>
    have htest : BitVec.twoPow 64 k < x ↔ k < Nat.clog 2 x.toNat := by
      rw [lt_def, toNat_twoPow_of_lt (by omega), Nat.lt_clog_iff_pow_lt (by decide)]
    rw [nextPow2Loop]
    by_cases hlt : k < Nat.clog 2 x.toNat
    · rw [if_pos (htest.mpr hlt), twoPow_shift (by omega), ih (by omega) (by omega)]
    · obtain rfl : k = Nat.clog 2 x.toNat := by omega
      rw [if_neg (mt htest.mp hlt)]

/-- **`next_pow2`** ends at the least power of two. -/
theorem nextPow2_eq {x : BitVec 64} (hx : x.toNat ≤ 2 ^ 63) :
    nextPow2 x = some (BitVec.twoPow 64 (Nat.clog 2 x.toNat)) := by
  have hclog : Nat.clog 2 x.toNat ≤ 63 := Nat.clog_le_of_le_pow hx
  exact nextPow2Loop_eq (k := 0) hx (by omega) (by omega)

/-! ## Making the queues -/

inductive QueueErr where
  /-- `next_pow2` does not end. -/
  | loops
  /-- `sgxlkl_fail` with this text. -/
  | fail (text : String)
  /-- The assertion of `newmpmcq`. -/
  | assertion
  /-- A store to `MAP_FAILED`. -/
  | fault
  deriving Repr, DecidableEq

structure Mapping (α : Type) where
  failed : Bool
  contents : Nat → α

/-- The memory that `register_queues` is given: two mappings, and whether each allocation
succeeds. -/
structure QueueMemory (α : Type) where
  rq : Mapping α
  sq : Mapping α
  syscallpage : Bool
  returnq : Bool
  syscallq : Bool

def QueueMemory.Granted (mem : QueueMemory α) : Prop :=
  mem.rq.failed = false ∧ mem.sq.failed = false ∧ mem.syscallpage = true ∧ mem.returnq = true
    ∧ mem.syscallq = true

def newQueue (size : BitVec 64) (buffer : Mapping α) : Except QueueErr (Mpmcq α) :=
  match newmpmcq size buffer.contents with
  | none => .error .assertion
  | some q => if buffer.failed then .error .fault else .ok q

def roundUp (size : BitVec 64) : Except QueueErr (BitVec 64) :=
  (nextPow2 size).elim (.error .loops) .ok

def orFail (granted : Bool) (text : String) : Except QueueErr Unit :=
  if granted then .ok () else .error (.fail text)

def registerQueues (mem : QueueMemory α) (maxsyscalls : BitVec 64) :
    Except QueueErr (Mpmcq α × Mpmcq α) := do
  let sqs ← roundUp (maxsyscalls * cellSize)
  let rqs ← roundUp (maxsyscalls * cellSize)
  orFail (!mem.rq.failed) "Could not allocate memory for return queue: %s\n"
  -- `rq` is tested again, not `sq`
  orFail (!mem.rq.failed) "Could not allocate memory for syscall queue: %s\n"
  orFail mem.syscallpage "Could not allocate memory for syscall pages: %s\n"
  orFail mem.returnq "Could not allocate memory for return queue struct: %s\n, strerror(errno)"
  orFail mem.syscallq "Could not allocate memory for syscall queue struct: %s\n, strerror(errno)"
  let syscallq ← newQueue sqs mem.sq
  let returnq ← newQueue rqs mem.rq
  return (syscallq, returnq)

variable {size : BitVec 64}

theorem registerQueues_eq {mem : QueueMemory α} (hmem : mem.Granted) {maxsyscalls : BitVec 64}
    (hsize : nextPow2 (maxsyscalls * cellSize) = some size) :
    registerQueues mem maxsyscalls = (do
      let syscallq ← newQueue size mem.sq
      let returnq ← newQueue size mem.rq
      return (syscallq, returnq)) := by
  obtain ⟨hrq, hsq, hpage, hreturnq, hsyscallq⟩ := hmem
  unfold registerQueues roundUp
  rw [hsize, hrq, hpage, hreturnq, hsyscallq]
  rfl

/-! ## The number of cells -/

def Mpmcq.cells (q : Mpmcq α) : Nat := (q.bufferMask + 1).toNat

theorem newmpmcq_cells {buffer : Nat → α} {q : Mpmcq α}
    (h : newmpmcq size buffer = some q) : q.cells = (size / cellSize).toNat := by
  simp only [newmpmcq] at h
  split at h
  · obtain rfl := Option.some.inj h
    show (size / cellSize - 1 + 1).toNat = _
    rw [sub_add_cancel]
  · cases h

theorem newQueue_granted {buffer : Mapping α} (hbuffer : buffer.failed = false)
    (hk : 0 < k) (hcells : (size / cellSize).toNat = 2 ^ k) :
    ∃ q, newQueue size buffer = .ok q ∧ q.cells = 2 ^ k := by
  obtain ⟨q, hq⟩ := Option.isSome_iff_exists.mp
    ((newmpmcq_isSome_iff size buffer.contents).mpr ⟨k, hk, hcells⟩)
  exact ⟨q, by simp [newQueue, hq, hbuffer], by rw [newmpmcq_cells hq, hcells]⟩

theorem newQueue_small (buffer : Mapping α) (h : (size / cellSize).toNat < 2) :
    newQueue size buffer = .error .assertion := by
  have hnone : newmpmcq size buffer.contents = none := by
    rw [← Option.not_isSome_iff_eq_none, newmpmcq_isSome_iff]
    rintro ⟨k, hk, hcells⟩
    have htwo : 2 ≤ 2 ^ k := Nat.le_self_pow hk.ne' 2
    omega
  rw [newQueue, hnone]

variable {n : Nat}

theorem bytes_toNat (hn : n ≤ 66560) :
    (BitVec.ofNat 64 n * cellSize).toNat = 16 * n := by
  rw [toNat_mul, toNat_ofNat, show cellSize.toNat = 16 from rfl]
  omega

theorem cells_of_twoPow (hk : k ≤ 63) :
    (BitVec.twoPow 64 k / cellSize).toNat = 2 ^ k / 16 := by
  rw [toNat_udiv, toNat_twoPow_of_lt (by omega), show cellSize.toNat = 16 from rfl]

def QueuesBuilt (mem : QueueMemory α) (maxUserThreads ethreads : Nat) : Prop :=
  ∃ syscallq returnq k,
    registerQueues mem (BitVec.ofNat 64 (maxUserThreads + ethreads)) = .ok (syscallq, returnq)
      ∧ syscallq.cells = 2 ^ k ∧ returnq.cells = 2 ^ k ∧ 2 ≤ 2 ^ k
      ∧ maxUserThreads + ethreads ≤ 2 ^ k

theorem cells_lt_two (h : n < 2) : 2 ^ Nat.clog 2 (16 * n) / 16 < 2 := by
  obtain rfl | rfl : n = 0 ∨ n = 1 := by omega
  · decide
  · have hfour : Nat.clog 2 16 = 4 := Nat.clog_pow 2 4 (by decide)
    rw [Nat.mul_one, hfour]
    decide

theorem cells_pow (h : 2 ≤ n) :
    ∃ k, 2 ^ Nat.clog 2 (16 * n) / 16 = 2 ^ k ∧ 0 < k ∧ n ≤ 2 ^ k := by
  -- two cells are 32 bytes, so the exponent is at least 5
  have hfive : 4 < Nat.clog 2 (16 * n) := (Nat.lt_clog_iff_pow_lt (by decide)).mpr (by omega)
  obtain ⟨k, hk⟩ : ∃ k, Nat.clog 2 (16 * n) = k + 4 := ⟨Nat.clog 2 (16 * n) - 4, by omega⟩
  have hpow : 16 * n ≤ 2 ^ Nat.clog 2 (16 * n) := Nat.le_pow_clog (by decide) _
  rw [hk, pow_add] at hpow
  refine ⟨k, ?_, by omega, by omega⟩
  rw [hk, pow_add]
  exact Nat.mul_div_cancel _ (by decide)

/-- **The queues for host calls** are made, and large enough, for every number of threads that the
configuration accepts, exactly if there are at least two threads. -/
theorem queues_built_iff (mem : QueueMemory α) (hmem : mem.Granted) (maxUserThreads ethreads : Nat)
    (hthreads : maxUserThreads ≤ Config.MAX_SGXLKL_MAX_USER_THREADS)
    (hethreads : ethreads ≤ Config.MAX_SGXLKL_ETHREADS) :
    QueuesBuilt mem maxUserThreads ethreads ↔ 2 ≤ maxUserThreads + ethreads := by
  have hn : maxUserThreads + ethreads ≤ 66560 := by
    simp only [Config.MAX_SGXLKL_MAX_USER_THREADS, Config.MAX_SGXLKL_ETHREADS] at hthreads hethreads
    omega
  unfold QueuesBuilt
  generalize maxUserThreads + ethreads = n at hn ⊢
  have hbytes := bytes_toNat hn
  have hsmall : (BitVec.ofNat 64 n * cellSize).toNat ≤ 2 ^ 63 := by omega
  have hclog : Nat.clog 2 (16 * n) ≤ 63 := Nat.clog_le_of_le_pow (by omega)
  have hround := nextPow2_eq hsmall
  rw [hbytes] at hround
  have hcells := cells_of_twoPow hclog
  rw [registerQueues_eq hmem hround]
  constructor
  · rintro ⟨syscallq, returnq, k, hok, -⟩
    by_contra hlt
    rw [newQueue_small mem.sq (by rw [hcells]; exact cells_lt_two (by omega))] at hok
    cases hok
  · intro hge
    obtain ⟨k, hdiv, hkpos, hle⟩ := cells_pow hge
    rw [hdiv] at hcells
    obtain ⟨syscallq, hsq, hscells⟩ := newQueue_granted hmem.2.1 hkpos hcells
    obtain ⟨returnq, hrq, hrcells⟩ := newQueue_granted hmem.1 hkpos hcells
    refine ⟨syscallq, returnq, k, ?_, hscells, hrcells, Nat.le_self_pow hkpos.ne' 2, hle⟩
    rw [hsq, hrq]
    rfl

def ampleMemory : QueueMemory Nat := ⟨⟨false, fun _ => 0⟩, ⟨false, fun _ => 0⟩, true, true, true⟩

/-- The default configuration: 256 user-level threads and one enclave thread. -/
theorem queues_built_iff_default : QueuesBuilt ampleMemory 256 1 :=
  (queues_built_iff ampleMemory ⟨rfl, rfl, rfl, rfl, rfl⟩ 256 1 (by decide) (by decide)).mpr
    (by decide)

/-- With `SGXLKL_MAX_USER_THREADS=0` and one enclave thread, the assertion of `newmpmcq` fails. -/
theorem no_queue_for_one_thread :
    ((Config.sgxlklConfigUint64
        ⟨fun var => if var = "SGXLKL_MAX_USER_THREADS" then some ['0'] else none, fun _ => []⟩ 37
          Config.ConfigState.initial).map Prod.fst = some (.uint 0))
      ∧ ((Config.sgxlklConfigUint64
        ⟨fun var => if var = "SGXLKL_MAX_USER_THREADS" then some ['0'] else none, fun _ => []⟩ 14
          Config.ConfigState.initial).map Prod.fst = some (.uint 1))
      ∧ registerQueues ampleMemory (BitVec.ofNat 64 (0 + 1)) = .error .assertion
      ∧ ¬ QueuesBuilt ampleMemory 0 1 := by
  refine ⟨by decide +kernel, by decide +kernel, rfl, ?_⟩
  rintro ⟨syscallq, returnq, k, hok, -⟩
  cases hok

end RktIo.Queue
