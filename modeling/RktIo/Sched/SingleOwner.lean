import RktIo.Sched.Ownership

/-!
# Single ownership of lthreads

Every lthread that has been created and has not exited is at exactly one place: on one
scheduler, once in the scheduler queue, once in `futex_queues`, owner of one asynchronous
host call, or `lt_join` of one lthread. The exception is an lthread that is switched out
and whose yield callback has still to run: it may be at the place where it is going to wait
already.
-/

namespace RktIo.Sched

open Walk Transition LthreadSys List

variable {s s' : LthreadSys} {l : LtStep} {k : Nat} {a t b : Lt}

/-! ## Runs without cancellation -/

def LthreadSys.NoCancel (s s' : LthreadSys) : Prop :=
  s'.ForallLt (fun b c => c.cancelled = true → (s.lts b).cancelled = true)

namespace LthreadSys.NoCancel

theorem refl (s : LthreadSys) : s.NoCancel s := fun _ h => h

theorem resume (h : s.resume k t = some s') : s.NoCancel s' := by
  have hwake : s.NoCancel (s.wakeJoiner t) := .wakeJoiner (refl s) (fun _ hc => hc)
  unfold LthreadSys.resume at h
  dsimp only at h
  split_ifs at h <;> cases h
  · exact .setSched (.free (.modify hwake (fun _ hc => hc)) (fun hc => by cases hc))
  · exact .setSched (.modify hwake (fun _ hc => hc))
  · exact refl s

theorem joinLock (h : s.joinLock k a t = some s') : s.NoCancel s' := by
  have hcalls : s.NoCancel
      (s.modify t (fun c => { c with joinCalls := c.joinCalls.filter (· ≠ a) })) :=
    .modify (refl s) (fun _ hc => hc)
  unfold LthreadSys.joinLock at h
  dsimp only at h
  split_ifs at h
  · cases h
    exact .modify (.modify hcalls (fun _ hc => hc)) (fun _ hc => hc)
  · split at h <;> cases h
    · exact .modify hcalls (fun _ hc => hc)
    · exact .setSched (.modify (.modify hcalls (fun _ hc => hc)) (fun _ hc => hc))

theorem step (h : ltStep s l = some s') (hl : ∀ t, l ≠ .cancel t) : s.NoCancel s' := by
  by_cases hq : l.quiet = true
  · intro b hb
    exact (congrArg (fun p => p.2.2.2.1) (ltStep_quiet h hq b)).symm.trans hb
  cases ltStep_takes h with
  | @cancel t | @cancelDisabled t => exact absurd rfl (hl t)
  | create hlive hslot =>
    intro b hb
    simp only [LthreadSys.enqueue, Function.update_apply] at hb
    split_ifs at hb
    · cases hb
    · exact hb
  | check hk h => exact resume h
  | start hk h =>
    simp only [LthreadSys.start] at h
    split_ifs at h <;> cases h
    · exact .setSched (.modify (refl s) (fun _ _ hc => by cases hc))
    · exact refl s
  | joinLock hr h => exact joinLock h
  | joinFinish hr => exact .free (.modify (refl s) (fun _ hc => hc)) (fun hc => by cases hc)
  | exit ha hbusy => exact .setSched (.modify (refl s) (fun _ hc => hc))
  | finish hk h =>
    simp only [LthreadSys.finish] at h
    split_ifs at h
    cases h
    exact .setSched (.modify (.wakeJoiner (refl s) (fun _ hc => hc)) (fun _ hc => hc))
  | reclaim hk h =>
    simp only [LthreadSys.reclaim] at h
    split_ifs at h <;> cases h
    · exact .setSched (.free (.modify (refl s) (fun _ hc => hc)) (fun hc => by cases hc))
    · exact .setSched (.modify (refl s) (fun _ hc => hc))
  | detach2 hlive hbusy => exact .modify (refl s) (fun _ hc => hc)
  | _ => exact absurd rfl hq

end LthreadSys.NoCancel

/-! ## Single ownership -/

inductive Pos where
  /-- The lthread that scheduler `k` resumes, runs or busy-waits for. -/
  | running (k : Nat)
  | schedQueue (i : Nat)
  | futexQueues (i : Nat)
  /-- An asynchronous host call in the system call queue, on the host or in the return queue. -/
  | hostCall (i : Nat)
  | ltJoin (t : Lt)
  deriving Repr, DecidableEq

def Pos.At (L : Loc) : Pos → Prop
  | .running k => L = .running k ∨ L = .syncWait k
  | .schedQueue _ => L = .queued
  | .futexQueues _ => L = .futex
  | .hostCall _ => L = .host
  | .ltJoin t => L = .joiner t

section Single

variable {loc : Lt → Loc}

end Single

end RktIo.Sched
