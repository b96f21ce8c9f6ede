import RktIo.Sched.Ownership

/-!
# Cancellation

`lthread_cancel` marks its target and puts it into the scheduler queue, wherever the target
is. The entry it already has there, or the one it gets when what it waits for happens, is
then a second one, and the scheduler that finds the mark may free the target while
`futex_queues` or a host call still refer to it.
-/

namespace RktIo.Sched

open Walk Transition LthreadSys

abbrev CancelOk (s : LthreadSys) (l : LtStep) : Prop :=
  joinSafe s l = true ∧ cancelSafe s l = true

/-- No lthread was freed twice, none is queued twice, and no queue refers to a freed one. -/
structure LthreadSys.References (s : LthreadSys) : Prop where
  freedOnce : s.doubleFree = false
  queuedOnce : s.schedQueue.Nodup
  schedQueue : ∀ a ∈ s.schedQueue, (s.lts a).live = true
  futexQueues : ∀ fq ∈ s.futexQueues, ∃ a, fq.futexLt = some a ∧ (s.lts a).live = true
  returnQueue : ∀ slot ∈ s.returnQueue, ∃ a, s.slotlthreads slot = some a ∧ (s.lts a).live = true

variable {s : LthreadSys} {loc : Lt → Loc}

theorem LthreadSys.Owned.references (hs : s.Owned loc) : s.References where
  freedOnce := hs.freedOnce
  queuedOnce := hs.queue.nodup
  schedQueue := by
    intro a ha
    rcases hs.queue.entry a ha with hq | hcan
    · exact (hs.live_iff a).mpr (by simp [hq])
    · refine (hs.live_iff a).mpr (fun hno => ?_)
      rw [(hs.fits a).dead hno] at hcan
      cases hcan
  futexQueues := by
    intro fq hfq
    refine ⟨fq.owner, hs.futex.named fq.ident (List.mem_map_of_mem hfq), (hs.live_iff _).mpr ?_⟩
    intro hno
    have hin := (hs.futex.owners fq.owner).mp (List.mem_map_of_mem hfq)
    rw [hno] at hin
    cases hin
  returnQueue := by
    intro slot hslot
    obtain ⟨a, ha, -⟩ := hs.host.owner slot (Owned.returnQueue_subset s slot hslot)
    exact ⟨a, ha, ((hs.host.slots slot a).mp ha).1⟩

/-- **Cancellation keeps lthreads single-owned** in every run that meets `CancelOk`. -/
theorem lthread_cancel_safe {alwaysSync : Bool}
    (h : Reaches ltStep CancelOk (.initial alwaysSync) s) : s.References := by
  obtain ⟨loc, hs⟩ : ∃ loc, s.Owned loc := by
    refine h.invariant (fun s => ∃ loc, s.Owned loc) ?_ ⟨_, Owned.initial alwaysSync⟩
    rintro s l s' ⟨loc, hs⟩ ⟨hj, hc⟩ hstep
    exact hs.step hj hc hstep
  exact hs.references

/-- A running lthread is cancelled twice, the second time when the scheduler has taken the
first entry; it exits, and a scheduler finds the second entry. -/
def cancelRun : List LtStep :=
  [.create 1 1 false, .resume 0, .check 0, .start 0, .cancel 1, .cancelEnqueue 1, .resume 1,
    .cancel 1, .cancelEnqueue 1, .check 1, .exit 0, .finish 0, .resume 1]

def cancelState : LthreadSys :=
  (exec ltStep CancelOk (.initial false) cancelRun).getD (.initial false)

theorem lthread_cancel_safe_running :
    Reaches ltStep CancelOk (.initial false) cancelState
      ∧ cancelState.scheds 1 = .resuming 1 ∧ cancelState.References := by
  have hreach : Reaches ltStep CancelOk (.initial false) cancelState := exec_reaches cancelRun rfl
  exact ⟨hreach, rfl, lthread_cancel_safe hreach⟩

def sleeperRun : List LtStep :=
  [.create 1 1 true, .resume 0, .check 0, .start 0, .futexWait 0 0x1000 1 0 0, .callback 0,
    .cancel 1, .cancelEnqueue 1, .cancel 1, .cancelEnqueue 1, .resume 0, .check 0]

def sleeperState (n : Nat) : LthreadSys :=
  (exec ltStep (fun _ _ => True) (.initial false) (sleeperRun.take n)).getD (.initial false)

/-- **Cancelling a sleeper.** It is queued twice. When a scheduler has found the first entry,
the lthread is freed, and the second entry and the one in `futex_queues` remain. -/
theorem lthread_cancel_sleeper :
    Reaches ltStep (fun _ _ => True) (.initial false) (sleeperState 10)
      ∧ (sleeperState 10).schedQueue = [1, 1]
      ∧ Reaches ltStep (fun _ _ => True) (.initial false) (sleeperState 12)
      ∧ ((sleeperState 12).lts 1).live = false ∧ (sleeperState 12).schedQueue = [1]
      ∧ (sleeperState 12).futexQueues.map FutexQ.futexLt = [some 1] :=
  ⟨exec_reaches (sleeperRun.take 10) rfl, rfl, exec_reaches (sleeperRun.take 12) rfl, rfl, rfl, rfl⟩

end RktIo.Sched
