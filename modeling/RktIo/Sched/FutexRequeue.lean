import RktIo.Sched.FutexKey

/-!
# Requeue counts

`futex_requeue` has one counter for two limits: it wakes while the counter is below `num` and
moves while it is below `num + limit`, where the sum is an `unsigned int`.
-/

namespace RktIo.Sched

open Walk List

/-- How a requeue goes through a queue: an entry with the key is woken, moved to `uaddr2` in its
place with everything else kept, or left; other entries are left. The last two arguments are the
woken entries and the number of moved ones. -/
inductive Requeues (key : BitVec 32) (uaddr2 : BitVec 64) :
    List FutexQ → List FutexQ → List FutexQ → Nat → Prop where
  | nil : Requeues key uaddr2 [] [] [] 0
  | wake {fq : FutexQ} {queues kept woken : List FutexQ} {moved : Nat} (hkey : fq.futexKey = key)
      (hrest : Requeues key uaddr2 queues kept woken moved) :
      Requeues key uaddr2 (fq :: queues) kept (fq :: woken) moved
  | move {fq : FutexQ} {queues kept woken : List FutexQ} {moved : Nat} (hkey : fq.futexKey = key)
      (hrest : Requeues key uaddr2 queues kept woken moved) :
      Requeues key uaddr2 (fq :: queues) (fq.rekey uaddr2 :: kept) woken (moved + 1)
  | leave {fq : FutexQ} {queues kept woken : List FutexQ} {moved : Nat}
      (hrest : Requeues key uaddr2 queues kept woken moved) :
      Requeues key uaddr2 (fq :: queues) (fq :: kept) woken moved

theorem Requeues.countP {key : BitVec 32} {uaddr2 : BitVec 64} (hne : toFutexKey uaddr2 ≠ key)
    {queues kept woken : List FutexQ} {moved : Nat}
    (h : Requeues key uaddr2 queues kept woken moved) :
    kept.countP (fun fq => fq.futexKey = key) + woken.length + moved
      = queues.countP (fun fq => fq.futexKey = key) := by
  induction h with
  | nil => rfl
  | wake hkey _ ih =>
    rw [countP_cons_of_pos (by simpa using hkey), length_cons, ← ih]
    omega
  | move hkey _ ih =>
    rw [countP_cons_of_neg (by simp [FutexQ.rekey, hne]),
      countP_cons_of_pos (by simpa using hkey), ← ih]
    omega
  | leave _ ih =>
    simp only [countP_cons, ← ih]
    omega

theorem walk_requeues (key : BitVec 32) (uaddr2 : BitVec 64) (num limit : BitVec 32)
    (queues : List FutexQ) : ∀ r : Requeued,
      let out := walk (futexRequeueBody key uaddr2 num limit) queues r
      ∃ moved, Requeues key uaddr2 queues out.kept out.unlinked moved
        ∧ out.acc.moved.length = r.moved.length + moved
        ∧ out.acc.w = r.w + out.unlinked.length + moved := by
  induction queues with
  | nil => intro r; exact ⟨0, .nil, rfl, rfl⟩
  | cons fq queues ih =>
    intro r
    obtain ⟨hkey, -, hb⟩ | ⟨hkey, -, -, hb⟩ | ⟨-, hb⟩ := futexRequeueBody_cases key uaddr2 num limit fq r
    · obtain ⟨moved, hsteps, hmoved, hw⟩ := ih { r with w := r.w + 1 }
      rw [walk_cons_unlinked hb]
      refine ⟨moved, .wake hkey hsteps, hmoved, ?_⟩
      simp only [hw, length_cons]
      omega
    · obtain ⟨moved, hsteps, hmoved, hw⟩ := ih { w := r.w + 1, moved := r.moved ++ [fq] }
      rw [walk_cons_kept hb]
      refine ⟨moved + 1, .move hkey hsteps, ?_, ?_⟩
      · simp only [hmoved, length_append, length_singleton]
        omega
      · simp only [hw]
        omega
    · obtain ⟨moved, hsteps, hmoved, hw⟩ := ih r
      rw [walk_cons_kept hb]
      exact ⟨moved, .leave hsteps, hmoved, hw⟩

/-- **What a requeue is for**: of the `m` waiters it wakes `num` or all, moves `limit` or all of
the others, and returns how many that was. -/
def RequeueExact (queues : List FutexQ) (uaddr uaddr2 : BitVec 64) (num limit : BitVec 32) : Prop :=
  let m := (requeueable queues uaddr).length
  let r := futexRequeue queues uaddr uaddr2 num limit
  let woken := min num.toNat m
  let moved := min limit.toNat (m - woken)
  Requeues (toFutexKey uaddr) uaddr2 queues r.kept r.unlinked moved
    ∧ r.unlinked.length = woken
    -- the counter is returned as an `int`
    ∧ (BitVec.ofNat 32 r.acc.w).toInt = woken + moved

theorem futexRequeue_counts (queues : List FutexQ) (uaddr uaddr2 : BitVec 64)
    (num limit : BitVec 32) :
    let m := (requeueable queues uaddr).length
    let r := futexRequeue queues uaddr uaddr2 num limit
    let moved := min ((num + limit).toNat - num.toNat) (m - num.toNat)
    Requeues (toFutexKey uaddr) uaddr2 queues r.kept r.unlinked moved
      ∧ r.unlinked.length = min num.toNat m
      ∧ r.acc.w = min num.toNat m + moved := by
  intro m r moved
  obtain ⟨hwoken, hmoved⟩ :=
    walk_futexRequeueBody (toFutexKey uaddr) uaddr2 num limit queues ⟨0, []⟩
  obtain ⟨n, hsteps, hn, hw⟩ := walk_requeues (toFutexKey uaddr) uaddr2 num limit queues ⟨0, []⟩
  have hlen : r.unlinked.length = min num.toNat m := by
    show (walk _ queues _).unlinked.length = _
    rw [hwoken, length_take]
    rfl
  have hn' : n = moved := by
    rw [hmoved] at hn
    simpa [requeueable, m, moved] using hn.symm
  subst hn'
  refine ⟨hsteps, hlen, ?_⟩
  rw [← hlen]
  exact hw.trans (by rw [Nat.zero_add]; rfl)

theorem toInt_ofNat_eq_iff {n : Nat} (hn : n < 2 ^ 32) :
    (BitVec.ofNat 32 n).toInt = n ↔ n < 2 ^ 31 := by
  rw [BitVec.toInt_eq_toNat_cond, BitVec.toNat_ofNat, Nat.mod_eq_of_lt hn]
  split_ifs with h
  · simp only [true_iff]
    omega
  · constructor
    · intro heq
      omega
    · intro hlt
      omega

/-- **Requeue counts are exact exactly if the sum of the limits does not wrap or is not needed**,
and the number that is returned is a positive `int`. -/
theorem futex_requeue_exact_iff (queues : List FutexQ) (uaddr uaddr2 : BitVec 64)
    (hne : toFutexKey uaddr ≠ toFutexKey uaddr2) (num limit : BitVec 32) :
    RequeueExact queues uaddr uaddr2 num limit
      ↔ (num.toNat + limit.toNat < 2 ^ 32 ∨ (requeueable queues uaddr).length ≤ num.toNat)
        ∧ min (num.toNat + limit.toNat) (requeueable queues uaddr).length < 2 ^ 31 := by
  obtain ⟨hsteps, hwoken, hw⟩ := futexRequeue_counts queues uaddr uaddr2 num limit
  have hsum : (num + limit).toNat = (num.toNat + limit.toNat) % 2 ^ 32 := BitVec.toNat_add num limit
  have hnum := num.isLt
  have hlimit := limit.isLt
  have hfit : (futexRequeue queues uaddr uaddr2 num limit).acc.w < 2 ^ 32 := by
    rw [hw]
    omega
  unfold RequeueExact
  generalize (requeueable queues uaddr).length = m at hsteps hwoken hw ⊢
  have hcount := hsteps.countP hne.symm
  constructor
  · rintro ⟨hsteps', -, hrc⟩
    -- the two readings of the walk leave the same waiters, so they move the same number
    have hcount' := hsteps'.countP hne.symm
    have hmoved : (futexRequeue queues uaddr uaddr2 num limit).acc.w
        = min num.toNat m + min limit.toNat (m - min num.toNat m) := by omega
    rw [← Nat.cast_add, ← hmoved, toInt_ofNat_eq_iff hfit] at hrc
    omega
  · rintro ⟨hwrap, hsmall⟩
    have hmoved : min ((num + limit).toNat - num.toNat) (m - num.toNat)
        = min limit.toNat (m - min num.toNat m) := by omega
    rw [hmoved] at hsteps hw
    refine ⟨hsteps, hwoken, ?_⟩
    rw [← Nat.cast_add, ← hw, toInt_ofNat_eq_iff hfit]
    omega

/-- Three waiters, one to wake and one to move. -/
theorem futex_requeue_exact_iff_three :
    RequeueExact [futexWaitNew 3 0x1000 1, futexWaitNew 2 0x1000 1, futexWaitNew 1 0x1000 1]
      0x1000 0x2000 1 1 :=
  (futex_requeue_exact_iff _ 0x1000 0x2000 (by decide) 1 1).mpr (by decide)

/-- **The sum wraps.** With no limit on the moved waiters, one waiter is woken and none moved. -/
theorem unlimited_requeue_moves_none :
    (futexRequeue [futexWaitNew 2 0x1000 1, futexWaitNew 1 0x1000 1] 0x1000 0x2000 1
        0xffffffff).kept = [futexWaitNew 1 0x1000 1]
      ∧ ¬ RequeueExact [futexWaitNew 2 0x1000 1, futexWaitNew 1 0x1000 1] 0x1000 0x2000 1
        0xffffffff := by
  refine ⟨by decide, ?_⟩
  rintro ⟨-, -, hrc⟩
  revert hrc
  decide

end RktIo.Sched
