import RktIo.Sched.Futex

/-!
# Which waiters an operation reaches

The key of a futex is the low half of its address, so waiters of two addresses that agree
there are one and the same to `futex_wake` and `futex_requeue`. This module says which
entries the two loops touch — the first few with the key — and that they treat an address
as the futex it is exactly if these entries all wait on it.
-/

namespace RktIo.Sched

open Walk List

/-! ## The entries the loops touch -/

def wakeable (queues : List FutexQ) (uaddr : BitVec 64) (bitset : BitVec 32) : List FutexQ :=
  queues.filter (fun fq => fq.futexKey = toFutexKey uaddr ∧ fq.futexBitset &&& bitset ≠ 0#32)

def requeueable (queues : List FutexQ) (uaddr : BitVec 64) : List FutexQ :=
  queues.filter (fun fq => fq.futexKey = toFutexKey uaddr)

def waiters (queues : List FutexQ) (uaddr : BitVec 64) (bitset : BitVec 32) : List FutexQ :=
  queues.filter (fun fq => fq.uaddr = uaddr ∧ fq.futexBitset &&& bitset ≠ 0#32)

theorem walk_futexWakeBody_unlinked (key bitset : BitVec 32) (num : Nat)
    (queues : List FutexQ) : ∀ w, (walk (futexWakeBody key bitset num) queues w).unlinked =
      (queues.filter (fun fq => fq.futexKey = key ∧ fq.futexBitset &&& bitset ≠ 0#32)).take
        (num - w) := by
  induction queues with
  | nil => intro w; simp
  | cons fq queues ih =>
    intro w
    by_cases hm : fq.futexKey = key ∧ fq.futexBitset &&& bitset ≠ 0#32
    · rw [filter_cons_of_pos (by simpa using hm)]
      by_cases hw : w < num
      · have hb : futexWakeBody key bitset num fq w = (none, w + 1) :=
          if_pos ⟨hm.1, hm.2, hw⟩
        rw [walk_cons_unlinked hb, ih, show num - w = num - (w + 1) + 1 from by omega,
          take_succ_cons]
      · have hb : futexWakeBody key bitset num fq w = (some fq, w) :=
          if_neg (fun h => hw h.2.2)
        rw [walk_cons_kept hb, ih, show num - w = 0 from by omega]
        rfl
    · have hb : futexWakeBody key bitset num fq w = (some fq, w) :=
        if_neg (fun h => hm ⟨h.1, h.2.1⟩)
      rw [walk_cons_kept hb, ih, filter_cons_of_neg (by simpa using hm)]

theorem futexWake_unlinked (queues : List FutexQ) (uaddr : BitVec 64) (num bitset : BitVec 32) :
    (futexWake queues uaddr num bitset).unlinked
      = (wakeable queues uaddr bitset).take num.toNat :=
  walk_futexWakeBody_unlinked (toFutexKey uaddr) bitset num.toNat queues 0

theorem walk_futexWakeBody_acc (key bitset : BitVec 32) (num : Nat) (queues : List FutexQ) : ∀ w,
    (walk (futexWakeBody key bitset num) queues w).acc
      = w + (walk (futexWakeBody key bitset num) queues w).unlinked.length := by
  induction queues with
  | nil => intro w; rfl
  | cons fq queues ih =>
    intro w
    by_cases hwake : fq.futexKey = key ∧ fq.futexBitset &&& bitset ≠ 0#32 ∧ w < num
    · have hb : futexWakeBody key bitset num fq w = (none, w + 1) := if_pos hwake
      rw [walk_cons_unlinked hb, ih, length_cons]
      omega
    · have hb : futexWakeBody key bitset num fq w = (some fq, w) := if_neg hwake
      rw [walk_cons_kept hb, ih]

theorem futexWake_acc (queues : List FutexQ) (uaddr : BitVec 64) (num bitset : BitVec 32) :
    (futexWake queues uaddr num bitset).acc
      = (futexWake queues uaddr num bitset).unlinked.length :=
  (walk_futexWakeBody_acc (toFutexKey uaddr) bitset num.toNat queues 0).trans (Nat.zero_add _)

theorem futexRequeueBody_cases (key : BitVec 32) (uaddr2 : BitVec 64) (num limit : BitVec 32)
    (fq : FutexQ) (r : Requeued) :
    (fq.futexKey = key ∧ r.w < num.toNat
        ∧ futexRequeueBody key uaddr2 num limit fq r = (none, { r with w := r.w + 1 }))
      ∨ (fq.futexKey = key ∧ num.toNat ≤ r.w ∧ r.w < (num + limit).toNat
        ∧ futexRequeueBody key uaddr2 num limit fq r
          = (some (fq.rekey uaddr2), { w := r.w + 1, moved := r.moved ++ [fq] }))
      ∨ ((fq.futexKey = key → num.toNat ≤ r.w ∧ (num + limit).toNat ≤ r.w)
        ∧ futexRequeueBody key uaddr2 num limit fq r = (some fq, r)) := by
  by_cases hwake : fq.futexKey = key ∧ r.w < num.toNat
  · exact Or.inl ⟨hwake.1, hwake.2, if_pos hwake⟩
  · by_cases hmove : fq.futexKey = key ∧ r.w < (num + limit).toNat
    · have hnum : num.toNat ≤ r.w := Nat.le_of_not_lt (fun h => hwake ⟨hmove.1, h⟩)
      refine Or.inr (Or.inl ⟨hmove.1, hnum, hmove.2, ?_⟩)
      rw [futexRequeueBody, if_neg hwake, if_pos hmove]
    · refine Or.inr (Or.inr ⟨?_, ?_⟩)
      · intro hkey
        exact ⟨Nat.le_of_not_lt (fun h => hwake ⟨hkey, h⟩),
          Nat.le_of_not_lt (fun h => hmove ⟨hkey, h⟩)⟩
      · rw [futexRequeueBody, if_neg hwake, if_neg hmove]

theorem walk_futexRequeueBody (key : BitVec 32) (uaddr2 : BitVec 64) (num limit : BitVec 32)
    (queues : List FutexQ) : ∀ r : Requeued,
      (walk (futexRequeueBody key uaddr2 num limit) queues r).unlinked =
          (queues.filter (fun fq => fq.futexKey = key)).take (num.toNat - r.w)
        ∧ (walk (futexRequeueBody key uaddr2 num limit) queues r).acc.moved =
          r.moved ++ ((queues.filter (fun fq => fq.futexKey = key)).drop (num.toNat - r.w)).take
            ((num + limit).toNat - max num.toNat r.w) := by
  induction queues with
  | nil => intro r; simp
  | cons fq queues ih =>
    intro r
    obtain ⟨hkey, hw, hb⟩ | ⟨hkey, hw, hk, hb⟩ | ⟨hleft, hb⟩ :=
      futexRequeueBody_cases key uaddr2 num limit fq r
    · rw [filter_cons_of_pos (by simpa using hkey), walk_cons_unlinked hb, (ih _).1, (ih _).2,
        show num.toNat - r.w = num.toNat - (r.w + 1) + 1 from by omega,
        show max num.toNat (r.w + 1) = max num.toNat r.w from by omega]
      exact ⟨rfl, rfl⟩
    · rw [filter_cons_of_pos (by simpa using hkey), walk_cons_kept hb, (ih _).1, (ih _).2,
        show num.toNat - r.w = 0 from by omega,
        show num.toNat - (r.w + 1) = 0 from by omega,
        show (num + limit).toNat - max num.toNat r.w
          = (num + limit).toNat - max num.toNat (r.w + 1) + 1 from by omega]
      simp
    · rw [walk_cons_kept hb, (ih _).1, (ih _).2]
      by_cases hkey : fq.futexKey = key
      · obtain ⟨hw, hk⟩ := hleft hkey
        rw [show num.toNat - r.w = 0 from by omega,
          show (num + limit).toNat - max num.toNat r.w = 0 from by omega]
        exact ⟨rfl, rfl⟩
      · rw [filter_cons_of_neg (by simpa using hkey)]
        exact ⟨rfl, rfl⟩

theorem futexRequeue_touched (queues : List FutexQ) (uaddr uaddr2 : BitVec 64)
    (num limit : BitVec 32) :
    (futexRequeue queues uaddr uaddr2 num limit).unlinked
        ++ (futexRequeue queues uaddr uaddr2 num limit).acc.moved
      = (requeueable queues uaddr).take (max num.toNat (num + limit).toNat) := by
  obtain ⟨hwoken, hmoved⟩ :=
    walk_futexRequeueBody (toFutexKey uaddr) uaddr2 num limit queues ⟨0, []⟩
  unfold futexRequeue
  rw [hwoken, hmoved]
  simp only [Nat.sub_zero, nil_append, Nat.max_zero]
  rw [show max num.toNat (num + limit).toNat = num.toNat + ((num + limit).toNat - num.toNat)
    from by omega, take_add]
  rfl

/-! ## Identity -/

theorem waiters_sublist_wakeable (queues : List FutexQ) (uaddr : BitVec 64)
    (bitset : BitVec 32) : (waiters queues uaddr bitset).Sublist (wakeable queues uaddr bitset) := by
  unfold waiters wakeable
  apply monotone_filter_right
  intro fq hfq
  simp only [decide_eq_true_eq] at hfq ⊢
  exact ⟨by rw [fq.keyed, hfq.1], hfq.2⟩

/-- `futex_wake(uaddr, num, bitset)` treats `uaddr` as a futex of its own. -/
structure WakeExact (queues : List FutexQ) (uaddr : BitVec 64) (num bitset : BitVec 32) :
    Prop where
  own : ∀ fq ∈ (futexWake queues uaddr num bitset).unlinked, fq ∈ waiters queues uaddr bitset
  count : (futexWake queues uaddr num bitset).unlinked.length
    = min num.toNat (waiters queues uaddr bitset).length
  one : num = 1 → waiters queues uaddr bitset ≠ [] →
    ∃ fq ∈ waiters queues uaddr bitset, (futexWake queues uaddr num bitset).unlinked = [fq]

def RequeueOwn (queues : List FutexQ) (uaddr uaddr2 : BitVec 64) (num limit : BitVec 32) : Prop :=
  (∀ fq ∈ (futexRequeue queues uaddr uaddr2 num limit).unlinked, fq.uaddr = uaddr)
    ∧ ∀ fq ∈ (futexRequeue queues uaddr uaddr2 num limit).acc.moved, fq.uaddr = uaddr

theorem length_take_wakeable {queues : List FutexQ} {uaddr : BitVec 64} {bitset : BitVec 32}
    {n : Nat} (h : ∀ fq ∈ (wakeable queues uaddr bitset).take n, fq.uaddr = uaddr) :
    ((wakeable queues uaddr bitset).take n).length
      = min n (waiters queues uaddr bitset).length := by
  have hle := (waiters_sublist_wakeable queues uaddr bitset).length_le
  have heq : waiters queues uaddr bitset
      = (wakeable queues uaddr bitset).filter (fun fq => fq.uaddr = uaddr) := by
    unfold waiters wakeable
    rw [filter_filter]
    apply filter_congr
    intro fq _
    rw [Bool.eq_iff_iff]
    simp only [decide_eq_true_eq, Bool.and_eq_true, fq.keyed]
    constructor
    · rintro ⟨rfl, hb⟩
      exact ⟨rfl, rfl, hb⟩
    · rintro ⟨rfl, _, hb⟩
      exact ⟨rfl, hb⟩
  have htake : ((wakeable queues uaddr bitset).take n).length
      ≤ (waiters queues uaddr bitset).length := by
    rw [heq, ← filter_eq_self.mpr (fun fq hfq => decide_eq_true (h fq hfq))]
    exact ((take_sublist n _).filter _).length_le
  rw [length_take] at htake ⊢
  omega

/-- **An address is the futex the operations treat it as exactly if the entries they touch
wait on it.** A wake touches the first `num` entries with the key of `uaddr` and an
intersecting bitset, a requeue the first `num` or, if that is more, `num + limit` with the
key. -/
theorem futex_identity_iff (queues : List FutexQ) (uaddr uaddr2 : BitVec 64)
    (num bitset limit : BitVec 32) :
    (WakeExact queues uaddr num bitset ↔
        ∀ fq ∈ (wakeable queues uaddr bitset).take num.toNat, fq.uaddr = uaddr)
      ∧ (RequeueOwn queues uaddr uaddr2 num limit ↔
        ∀ fq ∈ (requeueable queues uaddr).take (max num.toNat (num + limit).toNat),
          fq.uaddr = uaddr) := by
  refine ⟨⟨?_, ?_⟩, ?_⟩
  · intro h fq hfq
    rw [← futexWake_unlinked] at hfq
    have hw := h.own fq hfq
    simp only [waiters, List.mem_filter, decide_eq_true_eq] at hw
    exact hw.2.1
  · intro h
    have hown : ∀ fq ∈ (wakeable queues uaddr bitset).take num.toNat,
        fq ∈ waiters queues uaddr bitset := by
      intro fq hfq
      have hmem := List.mem_of_mem_take hfq
      simp only [wakeable, waiters, List.mem_filter, decide_eq_true_eq] at hmem ⊢
      exact ⟨hmem.1, h fq hfq, hmem.2.2⟩
    rw [← futexWake_unlinked] at hown
    have hcount : (futexWake queues uaddr num bitset).unlinked.length
        = min num.toNat (waiters queues uaddr bitset).length := by
      rw [futexWake_unlinked, length_take_wakeable h]
    refine ⟨hown, hcount, ?_⟩
    rintro rfl hne
    have hpos := List.length_pos_iff.mpr hne
    rw [show (1 : BitVec 32).toNat = 1 from rfl, Nat.min_eq_left (by omega)] at hcount
    obtain ⟨fq, hfq⟩ := List.length_eq_one_iff.mp hcount
    exact ⟨fq, hown fq (by rw [hfq]; exact List.mem_singleton_self fq), hfq⟩
  · rw [← futexRequeue_touched queues uaddr uaddr2 num limit]
    simp only [RequeueOwn, List.mem_append, or_imp, forall_and]

/-- A waiter of `0x1000` behind one of `0x100001000`: a wake of one waiter of `0x1000` wakes
the other. -/
theorem futexWake_wakes_other_address :
    (futexWake [futexWaitNew 1 0x100001000 1, futexWaitNew 2 0x1000 1] 0x1000 1 1).unlinked
        = [futexWaitNew 1 0x100001000 1]
      ∧ ¬ WakeExact [futexWaitNew 1 0x100001000 1, futexWaitNew 2 0x1000 1] 0x1000 1 1 := by
  have hwoken : (futexWake [futexWaitNew 1 0x100001000 1, futexWaitNew 2 0x1000 1] 0x1000 1
      1).unlinked = [futexWaitNew 1 0x100001000 1] := by decide
  refine ⟨hwoken, ?_⟩
  intro h
  have hown := h.own (futexWaitNew 1 0x100001000 1)
    (by rw [hwoken]; exact List.mem_singleton_self _)
  revert hown
  decide

end RktIo.Sched
