import RktIo.Lib.Transition

/-!
# The exit/join protocol (`lthread_exit`, `_lthread_resume`, `lthread_join`)

One lthread exits, the scheduler that ran it finishes the exit in `_lthread_resume`, and
another lthread joins it on another scheduler. Every access to a field of the target, every
lock operation and every queue operation is a step of its own; `lthread_exit` and the end of
`_exec` are the same sequence of them. The memory of the target is cleared when it is freed,
and `badAccess` records an access behind that.

The comment over `lthread_join` says that the time between the exit and the moment when the
scheduler does not see the target any more is protected by the lock. It is not: the joiner
does not take the lock again when it is woken, and the scheduler looks at the target once
more when it has released the lock.

## The architecture

* `targetStep`, `joinerStep` — the two programs;
* **`exit_join_run`** — the steps keep to these states when the joiner frees the target after
  the scheduler has left `_lthread_resume`, so that it is freed once.
-/

namespace RktIo.Sched

open Transition

/-! ## The programs -/

inductive ExitPc where
  /-- `_lthread_lock(lt)` -/
  | running
  /-- `lt->yield_cbarg = ptr` -/
  | locked
  /-- `lt->attr.state |= BIT(LT_ST_EXITED)` -/
  | stored
  /-- `_lthread_yield(lt)`, which saves the registers in `lt` -/
  | exiting
  /-- `_lthread_madvise(lt)` -/
  | switched
  /-- `if (lt->attr.state & BIT(LT_ST_EXITED))` -/
  | madvised
  /-- `arena_destroy(&lt->syscallarena)` -/
  | sawExited
  /-- `if (lt->lt_join)` -/
  | destroyed
  /-- the argument of `__scheduler_enqueue(lt->lt_join)` -/
  | sawJoin
  /-- `__scheduler_enqueue` -/
  | enqueuing
  /-- `lt->lt_join = NULL` -/
  | enqueued
  /-- `_lthread_unlock(lt)` -/
  | woken
  /-- `if (lt->attr.state & BIT(LT_ST_DETACH))` -/
  | unlocked
  /-- `_lthread_free(lt)` -/
  | freeing
  | left
  deriving Repr, DecidableEq

inductive JoinPc where
  /-- `if (lt->attr.state & BIT(LT_ST_DETACH))` -/
  | called
  /-- `_lthread_lock(lt)` -/
  | checked
  /-- `if (lt->attr.state & BIT(LT_ST_EXITED))` -/
  | locked
  /-- `_lthread_unlock(lt)` of an exited target -/
  | sawExited
  /-- `a_cas_p(&lt->lt_join, 0, current)` -/
  | sawRunning
  /-- `_lthread_unlock(lt)` when there already is a joiner -/
  | refused
  /-- switched out; the scheduler calls `_lthread_unlock(lt)` -/
  | registered
  /-- waiting for a scheduler to resume it -/
  | waiting
  /-- `if (ptr) *ptr = lt->yield_cbarg` -/
  | reading
  /-- `_lthread_free(lt)` -/
  | freeing
  | left
  deriving Repr, DecidableEq

/-- The target, the two program counters and whether the joiner is in the scheduler queue.
`exitPtr` is the argument of the exit, `hasPtr` whether the joiner wants it. `freed` counts
the calls of `_lthread_free`. -/
structure ExitJoin where
  exitPc : ExitPc
  joinPc : JoinPc
  busy : Bool
  exited : Bool
  detach : Bool
  ltJoin : Bool
  yieldCbarg : Nat
  queued : Bool
  exitPtr : Nat
  hasPtr : Bool
  result : Option Nat
  freed : Nat
  badAccess : Bool
  deriving Repr, DecidableEq

def ExitJoin.initial (exitPtr : Nat) (hasPtr : Bool) : ExitJoin where
  exitPc := .running
  joinPc := .called
  busy := false
  exited := false
  detach := false
  ltJoin := false
  yieldCbarg := 0
  queued := false
  exitPtr := exitPtr
  hasPtr := hasPtr
  result := none
  freed := 0
  badAccess := false

namespace ExitJoin

def touch (s : ExitJoin) : ExitJoin :=
  { s with badAccess := s.badAccess || decide (0 < s.freed) }

def free (s : ExitJoin) : ExitJoin :=
  { s.touch with
    busy := false, exited := false, detach := false, ltJoin := false, yieldCbarg := 0
    freed := s.freed + 1 }

def targetStep (s : ExitJoin) : Option ExitJoin :=
  match s.exitPc with
  | .running => if s.busy then none else some { s.touch with busy := true, exitPc := .locked }
  | .locked => some { s.touch with yieldCbarg := s.exitPtr, exitPc := .stored }
  | .stored => some { s.touch with exited := true, exitPc := .exiting }
  | .exiting => some { s.touch with exitPc := .switched }
  | .switched => some { s.touch with exitPc := .madvised }
  | .madvised => some { s.touch with exitPc := if s.exited then .sawExited else .left }
  | .sawExited => some { s.touch with exitPc := .destroyed }
  | .destroyed => some { s.touch with exitPc := if s.ltJoin then .sawJoin else .woken }
  | .sawJoin => if s.ltJoin then some { s.touch with exitPc := .enqueuing } else none
  | .enqueuing => some { s with queued := true, exitPc := .enqueued }
  | .enqueued => some { s.touch with ltJoin := false, exitPc := .woken }
  | .woken => some { s.touch with busy := false, exitPc := .unlocked }
  | .unlocked => some { s.touch with exitPc := if s.detach then .freeing else .left }
  | .freeing => some { s.free with exitPc := .left }
  | .left => none

def joinerStep (s : ExitJoin) : Option ExitJoin :=
  match s.joinPc with
  | .called => some { s.touch with joinPc := if s.detach then .left else .checked }
  | .checked => if s.busy then none else some { s.touch with busy := true, joinPc := .locked }
  | .locked => some { s.touch with joinPc := if s.exited then .sawExited else .sawRunning }
  | .sawExited => some { s.touch with busy := false, joinPc := .reading }
  | .sawRunning =>
    if s.ltJoin then some { s.touch with joinPc := .refused }
    else some { s.touch with ltJoin := true, joinPc := .registered }
  | .refused => some { s.touch with busy := false, joinPc := .left }
  | .registered => some { s.touch with busy := false, joinPc := .waiting }
  | .waiting => if s.queued then some { s with queued := false, joinPc := .reading } else none
  | .reading =>
    if s.hasPtr then some { s.touch with result := some s.yieldCbarg, joinPc := .freeing }
    else some { s with joinPc := .freeing }
  | .freeing => some { s.free with joinPc := .left }
  | .left => none

end ExitJoin

inductive Party where
  | target
  | joiner
  deriving Repr, DecidableEq

def exitJoinStep (s : ExitJoin) : Party → Option ExitJoin
  | .target => s.targetStep
  | .joiner => s.joinerStep

abbrev ExitJoinOk (s : ExitJoin) (p : Party) : Prop :=
  p = .joiner → s.joinPc = .freeing → s.exitPc = .left

/-! ## The program counters determine the state -/

def ExitPc.holds : ExitPc → Bool
  | .locked | .stored | .exiting | .switched | .madvised | .sawExited | .destroyed | .sawJoin
  | .enqueuing | .enqueued | .woken => true
  | _ => false

def ExitPc.valueStored : ExitPc → Bool
  | .running | .locked => false
  | _ => true

def ExitPc.exitedSet : ExitPc → Bool
  | .running | .locked | .stored => false
  | _ => true

def ExitPc.joinerWoken : ExitPc → Bool
  | .enqueued | .woken | .unlocked | .left => true
  | _ => false

def JoinPc.holds : JoinPc → Bool
  | .locked | .sawExited | .sawRunning | .registered => true
  | _ => false

/-- The program counters that a run can show together: the joiner takes the lock before the
exit does or behind its unlock, it registers before the exit takes the lock, and the
scheduler wakes it exactly when it has registered. -/
def Together : ExitPc → JoinPc → Bool
  | .freeing, _ | _, .refused => false
  | e, .called | e, .checked => e != .sawJoin && e != .enqueuing && e != .enqueued
  | e, .locked => e == .running || e == .unlocked || e == .left
  | e, .sawRunning | e, .registered => e == .running
  | e, .sawExited => e == .unlocked || e == .left
  | _, .waiting => true
  | e, .reading | e, .freeing => e.joinerWoken
  | e, .left => e == .left

def ExitJoin.ofPcs (exitPtr : Nat) (hasPtr : Bool) (e : ExitPc) (j : JoinPc) : ExitJoin where
  exitPc := e
  joinPc := j
  busy := e.holds || j.holds
  exited := e.exitedSet && j != .left
  detach := false
  ltJoin := j == .registered || (j == .waiting && !e.joinerWoken) || e == .enqueued
  yieldCbarg := if e.valueStored && j != .left then exitPtr else 0
  queued := j == .waiting && e.joinerWoken
  exitPtr := exitPtr
  hasPtr := hasPtr
  result := if hasPtr && (j == .freeing || j == .left) then some exitPtr else none
  freed := if j = .left then 1 else 0
  badAccess := false

variable {exitPtr : Nat} {hasPtr : Bool} {e : ExitPc} {j : JoinPc} {s' : ExitJoin}

section

variable (h : Together e j = true)

include h

theorem targetStep_ofPcs (hstep : (ExitJoin.ofPcs exitPtr hasPtr e j).targetStep = some s') :
    ∃ e', Together e' j = true ∧ s' = .ofPcs exitPtr hasPtr e' j := by
  refine ⟨s'.exitPc, ?_⟩
  cases e <;> cases j <;> cases h <;> cases hstep <;> exact ⟨rfl, rfl⟩

theorem joinerStep_ofPcs (hfree : j = .freeing → e = .left)
    (hstep : (ExitJoin.ofPcs exitPtr hasPtr e j).joinerStep = some s') :
    ∃ j', Together e j' = true ∧ s' = .ofPcs exitPtr hasPtr e j' := by
  refine ⟨s'.joinPc, ?_⟩
  cases e <;> cases j <;> cases h <;> cases hasPtr <;> cases hstep <;>
    first | exact ⟨rfl, rfl⟩ | cases hfree rfl

theorem target_waits (hstep : (ExitJoin.ofPcs exitPtr hasPtr e j).targetStep = none) :
    e = .left ∨ (e = .running ∧ j.holds = true) := by
  cases e <;> cases j <;> cases h <;> cases hstep <;> simp [JoinPc.holds]

theorem joiner_waits (hstep : (ExitJoin.ofPcs exitPtr hasPtr e j).joinerStep = none) :
    j = .left ∨ e.holds = true ∨ (j = .waiting ∧ e.joinerWoken = false) := by
  cases e <;> cases j <;> cases h <;> cases hasPtr <;> cases hstep <;>
    simp [ExitPc.holds, ExitPc.joinerWoken]

theorem ofPcs_stuck (ht : (ExitJoin.ofPcs exitPtr hasPtr e j).targetStep = none)
    (hj : (j = .freeing → e = .left) → (ExitJoin.ofPcs exitPtr hasPtr e j).joinerStep = none) :
    e = .left ∧ j = .left := by
  have hwaits : j = .left ∨ e.holds = true ∨ (j = .waiting ∧ e.joinerWoken = false) := by
    refine joiner_waits h (hj ?_)
    rintro rfl
    exact (target_waits h ht).resolve_right (fun hl => nomatch hl.2)
  rcases target_waits h ht with rfl | ⟨rfl, hl⟩
  · rcases hwaits with rfl | hl | ⟨-, hw⟩
    · exact ⟨rfl, rfl⟩
    · cases hl
    · cases hw
  · -- the joiner holds the lock, and needs nothing else to go on
    rcases hwaits with rfl | hl | ⟨rfl, -⟩
    · cases hl
    · cases hl
    · cases hl

end

def ExitJoin.progress (s : ExitJoin) : Nat :=
  s.exitPc.ctorIdx + s.joinPc.ctorIdx

theorem ExitJoin.progress_le (s : ExitJoin) : s.progress ≤ 24 := by
  have he : s.exitPc.ctorIdx ≤ 14 := by cases s.exitPc <;> decide
  have hj : s.joinPc.ctorIdx ≤ 10 := by cases s.joinPc <;> decide
  exact Nat.add_le_add he hj

theorem exitJoinStep_progress {s : ExitJoin} {p : Party} (h : exitJoinStep s p = some s') :
    s.progress < s'.progress := by
  obtain ⟨e, j⟩ := s
  cases p with
  | target =>
    cases e <;> simp only [exitJoinStep, ExitJoin.targetStep] at h <;>
      grind [ExitJoin.progress, ExitJoin.touch, ExitJoin.free]
  | joiner =>
    cases j <;> simp only [exitJoinStep, ExitJoin.joinerStep] at h <;>
      grind [ExitJoin.progress, ExitJoin.touch, ExitJoin.free]

/-! ## The runs -/

theorem exit_join_run {s : ExitJoin}
    (h : Reaches exitJoinStep ExitJoinOk (.initial exitPtr hasPtr) s) :
    ∃ e j, Together e j = true ∧ s = .ofPcs exitPtr hasPtr e j := by
  refine h.invariant (fun s => ∃ e j, Together e j = true ∧ s = .ofPcs exitPtr hasPtr e j) ?_
    ⟨.running, .called, rfl, ?_⟩
  · rintro _ p s' ⟨e, j, hej, rfl⟩ hok hstep
    cases p with
    | target =>
      obtain ⟨e', he', hs'⟩ := targetStep_ofPcs hej hstep
      exact ⟨e', j, he', hs'⟩
    | joiner =>
      obtain ⟨j', hj', hs'⟩ := joinerStep_ofPcs hej (hok rfl) hstep
      exact ⟨e, j', hj', hs'⟩
  · cases hasPtr <;> rfl

/-- **The exit and the join free the target once, and nobody touches it behind that**, in every
run in which the joiner frees it when the scheduler has left `_lthread_resume`. A run has at
most 24 steps, and where it cannot go on, the target has been freed and the joiner has the
exit value. -/
theorem exit_join_frees_once {exitPtr : Nat} {hasPtr : Bool} {s : ExitJoin}
    (h : Reaches exitJoinStep ExitJoinOk (.initial exitPtr hasPtr) s) :
    s.freed ≤ 1 ∧ s.badAccess = false ∧
      ((∀ p, ExitJoinOk s p → exitJoinStep s p = none) →
        s.exitPc = .left ∧ s.joinPc = .left ∧ s.freed = 1 ∧
          s.result = if hasPtr then some exitPtr else none) ∧
      ∀ p s', exitJoinStep s p = some s' → s.progress < s'.progress ∧ s'.progress ≤ 24 := by
  obtain ⟨e, j, hej, rfl⟩ := exit_join_run h
  refine ⟨?_, rfl, ?_, ?_⟩
  · show (if j = .left then 1 else 0) ≤ 1
    split <;> decide
  · intro hstuck
    obtain ⟨rfl, rfl⟩ := ofPcs_stuck hej (hstuck .target nofun)
      (fun hok => hstuck .joiner (fun _ => hok))
    exact ⟨rfl, rfl, rfl, by simp [ExitJoin.ofPcs]⟩
  · intro p s' hstep
    exact ⟨exitJoinStep_progress hstep, s'.progress_le⟩

def exitWakesJoiner : List Party :=
  [.joiner, .joiner, .joiner, .joiner, .joiner,
    .target, .target, .target, .target, .target, .target, .target, .target, .target, .target]

def lateJoiner : List Party :=
  exitWakesJoiner ++ [.target, .target, .target, .joiner, .joiner, .joiner]

def lateJoinerState : ExitJoin :=
  (exec exitJoinStep ExitJoinOk (.initial 7 true) lateJoiner).getD (.initial 7 true)

theorem exit_join_frees_once_late :
    Reaches exitJoinStep ExitJoinOk (.initial 7 true) lateJoinerState
      ∧ lateJoinerState.badAccess = false ∧ lateJoinerState.freed = 1
      ∧ lateJoinerState.result = some 7 := by
  have hreach : Reaches exitJoinStep ExitJoinOk (.initial 7 true) lateJoinerState :=
    exec_reaches lateJoiner rfl
  obtain ⟨-, hbad, hend, -⟩ := exit_join_frees_once hreach
  obtain ⟨-, -, hfreed, hresult⟩ := hend (fun p _ => by cases p <;> rfl)
  exact ⟨hreach, hbad, hfreed, hresult⟩

/-- The joiner is resumed, reads the exit value and frees the target before the scheduler that
woke it clears `lt_join`. -/
def earlyJoiner : List Party :=
  exitWakesJoiner ++ [.joiner, .joiner, .joiner, .target]

/-- The joiner takes the lock when the scheduler has released it, and frees the target before
the scheduler looks whether it is detached. -/
def joinBehindUnlock : List Party :=
  [.target, .target, .target, .target, .target, .target, .target, .target, .target,
    .joiner, .joiner, .joiner, .joiner, .joiner, .joiner, .target]

def earlyJoinerState (run : List Party) : ExitJoin :=
  (exec exitJoinStep (fun _ _ => True) (.initial 7 true) run).getD (.initial 7 true)

/-- **The scheduler touches the freed target**, with the joiner waiting or not. -/
theorem exit_join_use_after_free :
    Reaches exitJoinStep (fun _ _ => True) (.initial 7 true) (earlyJoinerState earlyJoiner)
      ∧ (earlyJoinerState earlyJoiner).freed = 1
      ∧ (earlyJoinerState earlyJoiner).badAccess = true
      ∧ Reaches exitJoinStep (fun _ _ => True) (.initial 7 true) (earlyJoinerState joinBehindUnlock)
      ∧ (earlyJoinerState joinBehindUnlock).freed = 1
      ∧ (earlyJoinerState joinBehindUnlock).badAccess = true :=
  ⟨exec_reaches earlyJoiner rfl, rfl, rfl, exec_reaches joinBehindUnlock rfl, rfl, rfl⟩

/-- **Whenever the joiner frees the target earlier, the scheduler's next step touches it**: the
condition on the runs cannot be weakened. -/
theorem early_free_touched (exitPtr : Nat) (hasPtr : Bool) {s s' : ExitJoin}
    (h : Reaches exitJoinStep ExitJoinOk (.initial exitPtr hasPtr) s) (hj : s.joinPc = .freeing)
    (he : s.exitPc ≠ .left) (hfree : exitJoinStep s .joiner = some s') :
    ∃ s'', exitJoinStep s' .target = some s'' ∧ s''.badAccess = true := by
  obtain ⟨e, j, hej, rfl⟩ := exit_join_run h
  cases hj
  cases e <;> cases hej <;> cases hfree <;> first | exact ⟨_, rfl, rfl⟩ | cases he rfl

theorem early_free_touched_woken :
    ∃ s, exitJoinStep (earlyJoinerState (exitWakesJoiner ++ [.joiner, .joiner, .joiner])) .target
      = some s ∧ s.badAccess = true :=
  early_free_touched 7 true (s := earlyJoinerState (exitWakesJoiner ++ [.joiner, .joiner]))
    (exec_reaches (exitWakesJoiner ++ [.joiner, .joiner]) rfl) rfl (by decide) rfl

end RktIo.Sched
