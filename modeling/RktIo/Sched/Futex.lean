import RktIo.Lib.Walk

/-!
# Futex operations (`src/sched/futex.c`)

The waiters of all futexes are in one list, `futex_queues`. The entry of an lthread is a
field of the lthread itself, so an entry is identified by its `owner`. This module embeds
the code that runs while `futex_q_lock` is held: `futex_wait` up to the context switch,
`futex_wake`, `futex_requeue` and the loop of `futex_tick`, each as a function of the list.

An lthread whose entry is unlinked is handed to the scheduler; the functions return the
unlinked entries, and the caller of a function passes their `futex_lt` on. The constants of
`futex.h` and `time.h` are those of the Linux ABI.
-/

namespace RktIo.Sched

open Walk

abbrev Lt := Nat

/-! ## Constants -/

def CLOCK_REALTIME : Nat := 0
def CLOCK_MONOTONIC : Nat := 1

def FUTEX_WAIT : BitVec 32 := 0
def FUTEX_WAKE : BitVec 32 := 1
def FUTEX_REQUEUE : BitVec 32 := 3
def FUTEX_CMP_REQUEUE : BitVec 32 := 4
def FUTEX_WAIT_BITSET : BitVec 32 := 9
def FUTEX_WAKE_BITSET : BitVec 32 := 10
def FUTEX_PRIVATE : BitVec 32 := 128
def FUTEX_CLOCK_REALTIME : BitVec 32 := 256
def FUTEX_BITSET_MATCH_ANY : BitVec 32 := 0xffffffff

def EAGAIN : Int := 11
def EINVAL : Int := 22
def ENOSYS : Int := 38
def ETIMEDOUT : Int := 110

def FUTEX_NONE : Int := 0
def FUTEX_EXPIRED : Int := 1

/-! ## Time -/

structure Timespec where
  sec : Int
  nsec : Int
  deriving Repr, DecidableEq

def timespecToUsec (ts : Timespec) : BitVec 64 :=
  BitVec.ofInt 64 (ts.sec * 1000000 + ts.nsec.tdiv 1000)

/-! ## Queue entries -/

def toFutexKey (uaddr : BitVec 64) : BitVec 32 := uaddr.setWidth 32

/-- `struct futex_q`. `uaddr` is not in the source: the address whose waiter this is, from
which the key was made. -/
structure FutexQ where
  owner : Lt
  futexKey : BitVec 32
  futexBitset : BitVec 32
  futexDeadline : BitVec 64
  clock : Nat
  futexLt : Option Lt
  uaddr : BitVec 64
  keyed : futexKey = toFutexKey uaddr
  deriving DecidableEq

def FutexQ.rekey (fq : FutexQ) (uaddr : BitVec 64) : FutexQ :=
  { fq with futexKey := toFutexKey uaddr, uaddr := uaddr, keyed := rfl }

def futexWaitNew (lt : Lt) (uaddr : BitVec 64) (bitset : BitVec 32) : FutexQ where
  owner := lt
  futexKey := toFutexKey uaddr
  futexBitset := bitset
  futexDeadline := 0
  clock := CLOCK_MONOTONIC
  futexLt := some lt
  uaddr := uaddr
  keyed := rfl

/-! ## Wake, requeue, tick -/

def futexWakeBody (key bitset : BitVec 32) (num : Nat) (fq : FutexQ) (w : Nat) :
    Option FutexQ × Nat :=
  if fq.futexKey = key ∧ fq.futexBitset &&& bitset ≠ 0#32 ∧ w < num then (none, w + 1)
  else (some fq, w)

def futexWake (queues : List FutexQ) (uaddr : BitVec 64) (num bitset : BitVec 32) :
    Walked FutexQ Nat :=
  walk (futexWakeBody (toFutexKey uaddr) bitset num.toNat) queues 0

/-- The loop variables of `futex_requeue`: its counter and, not in the source, the entries
that got the new key. -/
structure Requeued where
  w : Nat
  moved : List FutexQ
  deriving DecidableEq

def futexRequeueBody (key : BitVec 32) (uaddr2 : BitVec 64) (num limit : BitVec 32)
    (fq : FutexQ) (r : Requeued) : Option FutexQ × Requeued :=
  if fq.futexKey = key ∧ r.w < num.toNat then (none, { r with w := r.w + 1 })
  else if fq.futexKey = key ∧ r.w < (num + limit).toNat then
    (some (fq.rekey uaddr2), { w := r.w + 1, moved := r.moved ++ [fq] })
  else (some fq, r)

def futexRequeue (queues : List FutexQ) (uaddr uaddr2 : BitVec 64) (num limit : BitVec 32) :
    Walked FutexQ Requeued :=
  walk (futexRequeueBody (toFutexKey uaddr) uaddr2 num limit) queues ⟨0, []⟩

/-- The loop body of `futex_tick`. The conditions are assignments: `fq->clock` gets the
value of the conjunction behind it, and the first conjunction is false since
`CLOCK_REALTIME` is 0. -/
def futexTickBody (currUsecReal currUsecMntc : BitVec 64) (fq : FutexQ) (u : Unit) :
    Option FutexQ × Unit :=
  if fq.futexDeadline ≠ 0 then
    let real := decide (CLOCK_REALTIME ≠ 0) && decide (fq.futexDeadline ≤ currUsecReal)
    let mntc := decide (CLOCK_MONOTONIC ≠ 0) && decide (fq.futexDeadline ≤ currUsecMntc)
    if real then (none, u)
    else if mntc then (none, u)
    else (some { fq with clock := mntc.toNat }, u)
  else (some fq, u)

def futexTick (queues : List FutexQ) (currUsecReal currUsecMntc : BitVec 64) :
    Walked FutexQ Unit :=
  walk (futexTickBody currUsecReal currUsecMntc) queues ()

/-! ## What the loops leave alone -/

def FutexQ.ident (fq : FutexQ) : Lt × Option Lt := (fq.owner, fq.futexLt)

theorem futexWakeBody_ident {key bitset : BitVec 32} {num : Nat} {fq fq' : FutexQ} {w w' : Nat}
    (h : futexWakeBody key bitset num fq w = (some fq', w')) : fq'.ident = fq.ident := by
  unfold futexWakeBody at h
  split at h <;> cases h
  rfl

theorem futexRequeueBody_ident {key : BitVec 32} {uaddr2 : BitVec 64} {num limit : BitVec 32}
    {fq fq' : FutexQ} {r r' : Requeued}
    (h : futexRequeueBody key uaddr2 num limit fq r = (some fq', r')) : fq'.ident = fq.ident := by
  unfold futexRequeueBody at h
  split at h
  · cases h
  · split at h <;> cases h <;> rfl

theorem futexTickBody_ident {real mntc : BitVec 64} {fq fq' : FutexQ} {u u' : Unit}
    (h : futexTickBody real mntc fq u = (some fq', u')) : fq'.ident = fq.ident := by
  unfold futexTickBody at h
  simp only at h
  split at h
  · split at h
    · cases h
    · split at h <;> cases h
      rfl
  · cases h
    rfl

/-- A list of entries split in two: what is still linked and what is not. Every function of
this module that unlinks entries returns such a split. -/
structure Splits (queues kept unlinked : List FutexQ) : Prop where
  perm : (kept.map FutexQ.ident ++ unlinked.map FutexQ.ident).Perm (queues.map FutexQ.ident)
  length : kept.length + unlinked.length = queues.length

theorem walk_splits {σ : Type} {body : FutexQ → σ → Option FutexQ × σ}
    (hbody : ∀ fq s fq' s', body fq s = (some fq', s') → fq'.ident = fq.ident)
    (queues : List FutexQ) (s : σ) :
    Splits queues (walk body queues s).kept (walk body queues s).unlinked :=
  ⟨walk_perm _ hbody queues s, length_kept_add_unlinked body queues s⟩

theorem futexWake_splits (queues : List FutexQ) (uaddr : BitVec 64) (num bitset : BitVec 32) :
    Splits queues (futexWake queues uaddr num bitset).kept
      (futexWake queues uaddr num bitset).unlinked :=
  walk_splits (fun _ _ _ _ => futexWakeBody_ident) queues 0

theorem futexRequeue_splits (queues : List FutexQ) (uaddr uaddr2 : BitVec 64)
    (num limit : BitVec 32) :
    Splits queues (futexRequeue queues uaddr uaddr2 num limit).kept
      (futexRequeue queues uaddr uaddr2 num limit).unlinked :=
  walk_splits (fun _ _ _ _ => futexRequeueBody_ident) queues ⟨0, []⟩

theorem futexTick_splits (queues : List FutexQ) (real mntc : BitVec 64) :
    Splits queues (futexTick queues real mntc).kept (futexTick queues real mntc).unlinked :=
  walk_splits (fun _ _ _ _ => futexTickBody_ident) queues ()

/-! ## The unlinked lthreads -/

def futexLts (unlinked : List FutexQ) : Option (List Lt) := unlinked.mapM FutexQ.futexLt

theorem futexLts_eq {unlinked : List FutexQ}
    (h : ∀ e ∈ unlinked.map FutexQ.ident, e.2 = some e.1) :
    futexLts unlinked = some (unlinked.map FutexQ.owner) := by
  unfold futexLts
  induction unlinked with
  | nil => rfl
  | cons fq unlinked ih =>
    have hfq : fq.futexLt = some fq.owner := h fq.ident (by simp)
    have hrest := ih (fun e he => h e (by simp only [List.map_cons, List.mem_cons]; exact Or.inr he))
    rw [List.mapM_cons, hfq, hrest]
    rfl

theorem map_owner_eq (queues : List FutexQ) :
    queues.map FutexQ.owner = (queues.map FutexQ.ident).map Prod.fst := by
  rw [List.map_map]
  rfl

theorem Splits.owners {queues kept unlinked : List FutexQ} (h : Splits queues kept unlinked) :
    (kept.map FutexQ.owner ++ unlinked.map FutexQ.owner).Perm (queues.map FutexQ.owner) := by
  have hperm := h.perm.map Prod.fst
  rw [List.map_append] at hperm
  simpa only [map_owner_eq] using hperm

end RktIo.Sched
