import RktIo.Sched.ExitJoin
import RktIo.Sched.Futex

/-!
# The exit value and its joiners

The whole life of a target lthread against two lthreads that join it. The exit value is kept in
`yield_cbarg`, which every `_lthread_yield_cb` of the target overwrites and every `_lthread_resume`
clears; the two programs of the exit and the join are those of `ExitJoin`, here with the target's
first start, any number of yields before its exit and a second joiner. A step is one access to the
target, one lock operation or one queue operation.

The memory of a freed target reads as cleared, which is how `_lthread_free` leaves it.
-/

namespace RktIo.Sched

open Transition

/-! ## The programs -/

inductive TargetPc where
  /-- in a scheduler queue -/
  | queued
  /-- `if (lt->attr.state & BIT(LT_ST_CANCELLED))` in `_lthread_resume` -/
  | dequeued
  /-- `if (lt->attr.state & BIT(LT_ST_NEW))` -/
  | notCancelled
  /-- `_lthread_lock(lt)` in `_lthread_init` -/
  | starting
  /-- `lt->attr.state = BIT(LT_ST_READY)` -/
  | startLocked
  /-- `lt->yield_cb = 0` -/
  | resuming
  /-- `lt->yield_cbarg = 0` -/
  | cbCleared
  /-- `lt->yield_cbarg = arg` in `_lthread_yield_cb` -/
  | cbStored (arg : Nat)
  /-- `_switch` -/
  | yielding
  /-- `_lthread_madvise(lt)` -/
  | switched
  /-- `if (lt->attr.state & BIT(LT_ST_EXITED))` -/
  | madvised
  /-- `if (lt->yield_cb)` -/
  | notExited
  /-- `lt->yield_cb(lt->yield_cbarg)`, which gets the target into a queue again -/
  | sawCb
  /-- nobody resumes the target -/
  | parked
  /-- running, and in the exit -/
  | exit (e : ExitPc)
  deriving Repr, DecidableEq

inductive Who where
  | first
  | second
  deriving Repr, DecidableEq

/-- A caller of `lthread_join(lt, ptr)`: whether `ptr` is not `NULL` and what it points to, the
return value, and whether the caller is in a scheduler queue. -/
structure Joiner where
  pc : JoinPc
  hasPtr : Bool
  stored : Option Nat
  rc : Option Int
  ready : Bool
  deriving Repr, DecidableEq

def Joiner.initial (hasPtr : Bool) : Joiner := ⟨.called, hasPtr, none, none, false⟩

/-- The fields of the target, with the flags of `attr.state` one by one, and the three parties.
`enqueueArg` is the argument of `__scheduler_enqueue` in `_lthread_resume`. -/
structure JoinSys where
  pc : TargetPc
  first : Joiner
  second : Joiner
  new : Bool
  busy : Bool
  exited : Bool
  detach : Bool
  ltJoin : Option Who
  yieldCb : Bool
  yieldCbarg : Nat
  enqueueArg : Option Who
  exitPtr : Nat
  freed : Nat
  deriving Repr, DecidableEq

def JoinSys.initial (exitPtr : Nat) (hasPtr hasPtr₂ : Bool) : JoinSys where
  pc := .queued
  first := .initial hasPtr
  second := .initial hasPtr₂
  new := true
  busy := false
  exited := false
  detach := false
  ltJoin := none
  yieldCb := false
  yieldCbarg := 0
  enqueueArg := none
  exitPtr := exitPtr
  freed := 0

namespace JoinSys

def joiner (s : JoinSys) : Who → Joiner
  | .first => s.first
  | .second => s.second

def setJoiner (s : JoinSys) (j : Joiner) : Who → JoinSys
  | .first => { s with first := j }
  | .second => { s with second := j }

def free (s : JoinSys) : JoinSys :=
  { s with
    new := false, busy := false, exited := false, detach := false, ltJoin := none
    yieldCb := false, yieldCbarg := 0, freed := s.freed + 1 }

def exitStep (s : JoinSys) : ExitPc → Option JoinSys
  | .running => if s.busy then none else some { s with busy := true, pc := .exit .locked }
  | .locked => some { s with yieldCbarg := s.exitPtr, pc := .exit .stored }
  | .stored => some { s with exited := true, pc := .exit .exiting }
  | .exiting => some { s with pc := .exit .switched }
  | .switched => some { s with pc := .exit .madvised }
  | .madvised => some { s with pc := if s.exited then .exit .sawExited else .notExited }
  | .sawExited => some { s with pc := .exit .destroyed }
  | .destroyed => some { s with pc := if s.ltJoin.isSome then .exit .sawJoin else .exit .woken }
  | .sawJoin => some { s with enqueueArg := s.ltJoin, pc := .exit .enqueuing }
  | .enqueuing => s.enqueueArg.map (fun w =>
      { s.setJoiner { s.joiner w with ready := true } w with pc := .exit .enqueued })
  | .enqueued => some { s with ltJoin := none, pc := .exit .woken }
  | .woken => some { s with busy := false, pc := .exit .unlocked }
  | .unlocked => some { s with pc := if s.detach then .exit .freeing else .exit .left }
  | .freeing => some { s.free with pc := .exit .left }
  | .left => none

def targetStep (s : JoinSys) (yields : Option Nat) : Option JoinSys :=
  match s.pc with
  | .queued => some { s with pc := .dequeued }
  | .dequeued => some { s with pc := .notCancelled }
  | .notCancelled => some { s with pc := if s.new then .starting else .resuming }
  | .starting => if s.busy then none else some { s with busy := true, pc := .startLocked }
  | .startLocked =>
    -- the assignment clears every other flag
    some { s with new := false, busy := false, exited := false, pc := .resuming }
  | .resuming => some { s with yieldCb := false, pc := .cbCleared }
  | .cbCleared => some { s with yieldCbarg := 0, pc := .exit .running }
  | .cbStored arg => some { s with yieldCbarg := arg, pc := .yielding }
  | .yielding => some { s with pc := .switched }
  | .switched => some { s with pc := .madvised }
  | .madvised => some { s with pc := if s.exited then .exit .sawExited else .notExited }
  | .notExited => some { s with pc := if s.yieldCb then .sawCb else .parked }
  | .sawCb => some { s with pc := .queued }
  | .parked => none
  | .exit e =>
    match e, yields with
    | .running, some arg => some { s with yieldCb := true, pc := .cbStored arg }
    | e, _ => s.exitStep e

def joinStep (s : JoinSys) (w : Who) : Option JoinSys :=
  let j := s.joiner w
  match j.pc with
  | .called =>
    if s.detach then some (s.setJoiner { j with pc := .left, rc := some EINVAL } w)
    else some (s.setJoiner { j with pc := .checked } w)
  | .checked =>
    if s.busy then none else some ({ s with busy := true }.setJoiner { j with pc := .locked } w)
  | .locked => some (s.setJoiner { j with pc := if s.exited then .sawExited else .sawRunning } w)
  | .sawExited => some ({ s with busy := false }.setJoiner { j with pc := .reading } w)
  | .sawRunning =>
    if s.ltJoin.isSome then some (s.setJoiner { j with pc := .refused } w)
    else some ({ s with ltJoin := some w }.setJoiner { j with pc := .registered } w)
  | .refused =>
    some ({ s with busy := false }.setJoiner { j with pc := .left, rc := some EINVAL } w)
  | .registered => some ({ s with busy := false }.setJoiner { j with pc := .waiting } w)
  | .waiting =>
    if j.ready then some (s.setJoiner { j with pc := .reading, ready := false } w) else none
  | .reading =>
    let stored := if j.hasPtr then some s.yieldCbarg else j.stored
    some (s.setJoiner { j with pc := .freeing, stored := stored } w)
  | .freeing => some (s.free.setJoiner { j with pc := .left, rc := some 0 } w)
  | .left => none

end JoinSys

inductive JoinAct where
  | target (yields : Option Nat)
  | join (w : Who)
  deriving Repr, DecidableEq

def joinSysStep (s : JoinSys) : JoinAct → Option JoinSys
  | .target yields => s.targetStep yields
  | .join w => s.joinStep w

abbrev JoinDomain (s : JoinSys) (a : JoinAct) : Prop :=
  a = .join .second → s.second.pc = .called → s.ltJoin = some .first ∧ s.exited = false

def TargetPc.exits : TargetPc → Bool
  | .exit e => e != .running
  | _ => false

def TargetPc.ended : TargetPc → Bool
  | .exit .running | .exit .locked | .exit .stored | .exit .exiting => false
  | .exit _ => true
  | _ => false

abbrev JoinInTime (s : JoinSys) (a : JoinAct) : Prop :=
  a = .join .second → s.second.pc = .checked → s.pc.exits = false

/-! ## The program counters determine the state -/

/-- How far the target is with its exit. The first start has the lock for a while, which looks to
a joiner like the begin of the exit. -/
def TargetPc.phase : TargetPc → ExitPc
  | .exit e => e
  | .startLocked => .locked
  | _ => .running

/-- The program counters of the target and the first joiner that a run can show together: as in
`Together`, but the joiner may free the target as soon as it has been woken. -/
def Joined (e : ExitPc) (j : JoinPc) : Bool := Together e j || (j == .left && e.joinerWoken)

def JoinPc.contends : JoinPc → Bool
  | .locked | .sawRunning | .refused => true
  | _ => false

def JoinPc.registers : JoinPc → Bool
  | .registered | .waiting | .reading | .freeing | .left => true
  | _ => false

/-- Where the second joiner is, if it has the lock before the exit: it gets the lock when the first
one waits, and is refused. -/
structure SecondRefused (e : ExitPc) (j k : JoinPc) : Prop where
  pcs : k ∈ [JoinPc.called, .checked, .locked, .sawRunning, .refused, .left]
  waits : k.contends = true → e = .running ∧ j = .waiting
  later : k ≠ .called → j.registers = true

structure JoinRest where
  new : Bool
  yieldCb : Bool
  yieldCbarg : Nat
  enqueueArg : Option Who
  hasPtr : Bool
  hasPtr₂ : Bool

def JoinSys.ofPhase (exitPtr : Nat) (x : JoinRest) (pc : TargetPc) (e : ExitPc) (j k : JoinPc) :
    JoinSys where
  pc := pc
  first :=
    { pc := j
      hasPtr := x.hasPtr
      stored := if x.hasPtr && (j == .freeing || j == .left) then some exitPtr else none
      rc := if j == .left then some 0 else none
      ready := j == .waiting && e.joinerWoken }
  second := ⟨k, x.hasPtr₂, none, if k == .left then some EINVAL else none, false⟩
  new := x.new
  busy := j != .left && (e.holds || j.holds || (e == .running && j == .waiting && k.contends))
  exited := j != .left && e.exitedSet
  detach := false
  ltJoin :=
    if j == .registered || (j == .waiting && !e.joinerWoken) || (j != .left && e == .enqueued) then
      some .first
    else none
  yieldCb := x.yieldCb
  yieldCbarg := if j != .left && e.valueStored then exitPtr else x.yieldCbarg
  enqueueArg := if e == .enqueuing then some .first else x.enqueueArg
  exitPtr := exitPtr
  freed := if j == .left then 1 else 0

/-- **What the program counters say about the target.** -/
inductive JoinSys.Fits (exitPtr : Nat) : JoinSys → Prop where
  | mk (x : JoinRest) (pc : TargetPc) (j k : JoinPc) (hj : Joined pc.phase j = true)
      (hk : SecondRefused pc.phase j k) : Fits exitPtr (.ofPhase exitPtr x pc pc.phase j k)

theorem JoinSys.Fits.initial (exitPtr : Nat) (hasPtr hasPtr₂ : Bool) :
    (JoinSys.initial exitPtr hasPtr hasPtr₂).Fits exitPtr := by
  have hk : SecondRefused .running .called .called :=
    ⟨List.mem_cons_self, nofun, fun h => absurd rfl h⟩
  cases hasPtr
  · exact .mk ⟨true, false, 0, none, false, hasPtr₂⟩ .queued .called .called rfl hk
  · exact .mk ⟨true, false, 0, none, true, hasPtr₂⟩ .queued .called .called rfl hk

variable {v : Nat} {x : JoinRest} {pc : TargetPc} {e : ExitPc} {j k : JoinPc} {s s' : JoinSys}

theorem SecondRefused.of_not_contends (h : SecondRefused e j k) (hk : k.contends = false)
    (e' : ExitPc) : SecondRefused e' j k := by
  refine ⟨h.pcs, ?_, h.later⟩
  intro hc
  rw [hk] at hc
  cases hc

theorem SecondRefused.not_contends (h : SecondRefused e j k) (he : e ≠ .running) :
    k.contends = false :=
  Bool.eq_false_iff.mpr (fun hc => he (h.waits hc).1)

theorem exitStep_ofPhase (hj : Joined e j = true) (he : e ≠ .running)
    (h : (JoinSys.ofPhase v x (.exit e) e j k).exitStep e = some s') :
    ∃ x' e', e' ≠ .running ∧ Joined e' j = true ∧ s' = .ofPhase v x' (.exit e') e' j k := by
  refine ⟨{ x with enqueueArg := s'.enqueueArg }, s'.pc.phase, ?_⟩
  cases e with
  | running => cases he rfl
  | _ => cases j <;> cases hj <;> cases h <;> exact ⟨nofun, rfl, rfl⟩

theorem lock_ofPhase (hj : Joined .running j = true) (hk : SecondRefused .running j k)
    (hbusy : (JoinSys.ofPhase v x pc .running j k).busy = false) (pc' : TargetPc) :
    Joined .locked j = true ∧ k.contends = false
      ∧ { JoinSys.ofPhase v x pc .running j k with busy := true, pc := pc' }
        = .ofPhase v x pc' .locked j k := by
  have hc : k.contends = false := by
    rw [Bool.eq_false_iff]
    intro hc
    obtain ⟨-, rfl⟩ := hk.waits hc
    have htrue : (JoinSys.ofPhase v x pc .running .waiting k).busy = k.contends := rfl
    rw [htrue, hc] at hbusy
    cases hbusy
  cases j <;> cases hj <;> first | exact ⟨rfl, hc, rfl⟩ | cases hbusy

theorem JoinSys.unlock_of_free (h : s.busy = false) : { s with busy := false } = s := by
  rw [← h]

theorem startStep_ofPhase (hj : Joined .locked j = true) (hk : SecondRefused .locked j k)
    (h : (JoinSys.ofPhase v x .startLocked .locked j k).targetStep none = some s') :
    Joined .running j = true
      ∧ s' = .ofPhase v { x with new := false } .resuming .running j k := by
  cases j <;> cases hj <;> cases h
  · exact ⟨rfl, rfl⟩
  · exact ⟨rfl, rfl⟩
  · -- the second joiner does not hold the lock
    have hbusy : (JoinSys.ofPhase v { x with new := false } .resuming .running .waiting k).busy
        = false := hk.not_contends nofun
    exact ⟨rfl, JoinSys.unlock_of_free hbusy⟩

theorem runStep_ofPhase (hj : Joined .running j = true) (hphase : pc.phase = .running)
    (hpc : pc ≠ .starting) (hpc' : pc ≠ .exit .running)
    (h : (JoinSys.ofPhase v x pc .running j k).targetStep none = some s') :
    ∃ x' pc', pc'.phase = .running ∧ s' = .ofPhase v x' pc' .running j k := by
  refine ⟨⟨s'.new, s'.yieldCb, s'.yieldCbarg, s'.enqueueArg, x.hasPtr, x.hasPtr₂⟩, s'.pc, ?_⟩
  cases pc with
  | exit e =>
    cases hphase
    cases hpc' rfl
  | starting => cases hpc rfl
  | startLocked => cases hphase
  | parked => cases h
  | madvised =>
    cases j <;> cases hj <;> cases h <;> exact ⟨rfl, rfl⟩
  | notCancelled =>
    obtain ⟨new⟩ := x
    cases j <;> cases hj <;> cases new <;> cases h <;> exact ⟨rfl, rfl⟩
  | notExited =>
    obtain ⟨_, yieldCb⟩ := x
    cases j <;> cases hj <;> cases yieldCb <;> cases h <;> exact ⟨rfl, rfl⟩
  | _ => cases j <;> cases hj <;> cases h <;> exact ⟨rfl, rfl⟩

theorem JoinSys.Fits.targetStep {yields : Option Nat} (hs : s.Fits v)
    (h : s.targetStep yields = some s') : s'.Fits v := by
  obtain ⟨x, pc, j, k, hj, hk⟩ := hs
  -- the lock is taken in two places
  have hlock (pc' : TargetPc) (hphase : pc.phase = .running) (hphase' : pc'.phase = .locked)
      (h : (if (JoinSys.ofPhase v x pc pc.phase j k).busy then none
        else some { JoinSys.ofPhase v x pc pc.phase j k with busy := true, pc := pc' }) = some s') :
      s'.Fits v := by
    rw [hphase] at hj hk h
    split at h
    · cases h
    · rename_i hbusy
      obtain ⟨hj', hc, heq⟩ := lock_ofPhase hj hk (Bool.eq_false_iff.mpr hbusy) pc'
      cases h
      rw [heq, ← hphase']
      exact .mk x pc' j k (by rw [hphase']; exact hj') (hk.of_not_contends hc _)
  have hrun (hphase : pc.phase = .running) (hpc : pc ≠ .starting) (hpc' : pc ≠ .exit .running)
      (h : (JoinSys.ofPhase v x pc pc.phase j k).targetStep none = some s') : s'.Fits v := by
    rw [hphase] at hj hk h
    obtain ⟨x', pc', hphase', rfl⟩ := runStep_ofPhase hj hphase hpc hpc' h
    rw [← hphase']
    exact .mk x' pc' j k (by rw [hphase']; exact hj) (by rw [hphase']; exact hk)
  cases pc with
  | starting => exact hlock .startLocked rfl rfl h
  | startLocked =>
    obtain ⟨hj', rfl⟩ := startStep_ofPhase hj hk h
    exact .mk _ .resuming j k hj' (hk.of_not_contends (hk.not_contends nofun) _)
  | exit e =>
    by_cases he : e = .running
    · subst he
      cases yields with
      | none => exact hlock (.exit .locked) rfl rfl h
      | some arg =>
        cases h
        exact .mk { x with yieldCb := true } (.cbStored arg) j k hj hk
    · have hstep : (JoinSys.ofPhase v x (.exit e) e j k).exitStep e = some s' := by
        cases e with
        | running => cases he rfl
        | _ => exact h
      obtain ⟨x', e', he', hj', rfl⟩ := exitStep_ofPhase hj he hstep
      exact .mk x' (.exit e') j k hj' (hk.of_not_contends (hk.not_contends he) _)
  | _ => exact hrun rfl nofun nofun h

theorem firstStep_not_contends (hk : SecondRefused e j k)
    (h : (JoinSys.ofPhase v x pc e j k).joinStep .first = some s') : k.contends = false := by
  rw [Bool.eq_false_iff]
  intro hc
  obtain ⟨rfl, rfl⟩ := hk.waits hc
  cases h

theorem firstStep_ofPhase (hj : Joined e j = true) (hc : k.contends = false)
    (h : (JoinSys.ofPhase v x pc e j k).joinStep .first = some s') :
    ∃ x' j', Joined e j' = true ∧ (j.registers = true → j'.registers = true)
      ∧ s' = .ofPhase v x' pc e j' k := by
  obtain ⟨new, yieldCb, yieldCbarg, enqueueArg, hasPtr, hasPtr₂⟩ := x
  refine ⟨⟨s'.new, s'.yieldCb, s'.yieldCbarg, s'.enqueueArg, hasPtr, hasPtr₂⟩, s'.first.pc, ?_⟩
  cases j with
  | registered =>
    cases e <;> cases hj
    cases h
    have hbusy : (JoinSys.ofPhase v ⟨new, yieldCb, yieldCbarg, enqueueArg, hasPtr, hasPtr₂⟩ pc
        .running .waiting k).busy = false := hc
    exact ⟨rfl, fun _ => rfl, JoinSys.unlock_of_free hbusy⟩
  | reading => cases hasPtr <;> cases e <;> cases hj <;> cases h <;> exact ⟨rfl, fun _ => rfl, rfl⟩
  | called => cases e <;> cases hj <;> cases h <;> exact ⟨rfl, nofun, rfl⟩
  | checked | locked | sawExited => cases e <;> cases hj <;> cases h <;> exact ⟨rfl, nofun, rfl⟩
  | sawRunning =>
    cases e <;> cases hj
    cases h
    exact ⟨rfl, nofun, rfl⟩
  | _ => cases e <;> cases hj <;> cases h <;> exact ⟨rfl, fun _ => rfl, rfl⟩

theorem JoinSys.Fits.firstStep (hs : s.Fits v) (h : s.joinStep .first = some s') : s'.Fits v := by
  obtain ⟨x, pc, j, k, hj, hk⟩ := hs
  have hc := firstStep_not_contends hk h
  obtain ⟨x', j', hj', hlater, rfl⟩ := firstStep_ofPhase hj hc h
  refine .mk x' pc j' k hj' ⟨hk.pcs, ?_, fun hne => hlater (hk.later hne)⟩
  intro hc'
  rw [hc] at hc'
  cases hc'

theorem registers_of_ltJoin (hj : Joined e j = true)
    (h : (JoinSys.ofPhase v x pc e j k).ltJoin = some .first) : j.registers = true := by
  cases j <;> first | rfl | (cases e <;> cases hj <;> cases h)

theorem waiting_of_free (hj : Joined pc.phase j = true) (hregisters : j.registers = true)
    (hexits : pc.exits = false) (hbusy : (JoinSys.ofPhase v x pc pc.phase j k).busy = false) :
    pc.phase = .running ∧ j = .waiting := by
  have hphase : pc.phase = .running ∨ pc.phase = .locked := by
    cases pc with
    | exit e => cases e <;> cases hexits; exact Or.inl rfl
    | startLocked => exact Or.inr rfl
    | _ => exact Or.inl rfl
  generalize pc.phase = e at *
  rcases hphase with rfl | rfl <;> cases j <;> cases hj <;> cases hregisters <;>
    first | exact ⟨rfl, rfl⟩ | cases hbusy

/-- **A step of the second joiner**, which has the lock before the exit: it changes nothing but the
lock and its own program counter. -/
theorem secondStep_ofPhase (hj : Joined pc.phase j = true) (hk : SecondRefused pc.phase j k)
    (hdomain : JoinDomain (.ofPhase v x pc pc.phase j k) (.join .second))
    (htime : JoinInTime (.ofPhase v x pc pc.phase j k) (.join .second))
    (h : (JoinSys.ofPhase v x pc pc.phase j k).joinStep .second = some s') :
    ∃ k', SecondRefused pc.phase j k' ∧ s' = .ofPhase v x pc pc.phase j k' := by
  have hpcs := hk.pcs
  cases k with
  | called =>
    obtain ⟨hjoin, -⟩ := hdomain rfl rfl
    have hregisters := registers_of_ltJoin hj hjoin
    cases h
    exact ⟨.checked, ⟨by decide, nofun, fun _ => hregisters⟩, rfl⟩
  | checked =>
    have hregisters := hk.later nofun
    cases hbusy : (JoinSys.ofPhase v x pc pc.phase j .checked).busy with
    | true =>
      simp only [JoinSys.joinStep, JoinSys.joiner, hbusy] at h
      cases h
    | false =>
      obtain ⟨hphase, rfl⟩ := waiting_of_free hj hregisters (htime rfl rfl) hbusy
      rw [hphase] at h ⊢
      cases h
      exact ⟨.locked, ⟨by decide, fun _ => ⟨rfl, rfl⟩, fun _ => rfl⟩, rfl⟩
  | locked =>
    obtain ⟨hphase, rfl⟩ := hk.waits rfl
    rw [hphase] at h ⊢
    cases h
    exact ⟨.sawRunning, ⟨by decide, fun _ => ⟨rfl, rfl⟩, fun _ => rfl⟩, rfl⟩
  | sawRunning =>
    obtain ⟨hphase, rfl⟩ := hk.waits rfl
    rw [hphase] at h ⊢
    cases h
    exact ⟨.refused, ⟨by decide, fun _ => ⟨rfl, rfl⟩, fun _ => rfl⟩, rfl⟩
  | refused =>
    obtain ⟨hphase, rfl⟩ := hk.waits rfl
    rw [hphase] at h ⊢
    cases h
    exact ⟨.left, ⟨by decide, nofun, fun _ => rfl⟩, rfl⟩
  | left => cases h
  | _ => simp at hpcs

theorem JoinSys.Fits.secondStep (hs : s.Fits v) (hdomain : JoinDomain s (.join .second))
    (htime : JoinInTime s (.join .second)) (h : s.joinStep .second = some s') : s'.Fits v := by
  obtain ⟨x, pc, j, k, hj, hk⟩ := hs
  obtain ⟨k', hk', rfl⟩ := secondStep_ofPhase hj hk hdomain htime h
  exact .mk x pc j k' hj hk'

/-! ## The runs -/

theorem join_run {hasPtr hasPtr₂ : Bool} (h : Reaches joinSysStep
      (fun s a => JoinDomain s a ∧ JoinInTime s a) (.initial v hasPtr hasPtr₂) s) : s.Fits v := by
  refine h.invariant (JoinSys.Fits v) ?_ (JoinSys.Fits.initial v hasPtr hasPtr₂)
  rintro s a s' hs ⟨hdomain, htime⟩ hstep
  cases a with
  | target yields => exact hs.targetStep hstep
  | join w =>
    cases w with
    | first => exact hs.firstStep hstep
    | second => exact hs.secondStep hdomain htime hstep

/-- **What a join is for**: whoever gets 0 has the exit value, a second lthread gets `EINVAL` and
changes nothing but the lock, which it gives back, and the joiner goes on only when the target has
ended. -/
structure JoinRight (exitPtr : Nat) (s : JoinSys) : Prop where
  value : ∀ w, (s.joiner w).rc = some 0 → (s.joiner w).hasPtr = true →
    (s.joiner w).stored = some exitPtr
  first : ∀ rc, s.first.rc = some rc → rc = 0
  second : ∀ rc, s.second.rc = some rc → rc = EINVAL
  frame : ∀ s', JoinDomain s (.join .second) → JoinInTime s (.join .second) →
    joinSysStep s (.join .second) = some s' → s' = { s with busy := s'.busy, second := s'.second }
  goesOn : s.second.pc ≠ .left → joinSysStep s (.join .second) = none →
    s.second.pc = .checked ∧ s.busy = true
  held : s.busy = true →
    s.pc.phase.holds = true ∨ s.first.pc.holds = true ∨ s.second.pc.contends = true
  proceeds : s.first.pc ∈ [JoinPc.reading, .freeing, .left] → s.pc.ended = true

theorem joinerWoken_of_reading (hj : Joined e j = true)
    (hread : j ∈ [JoinPc.reading, .freeing, .left]) : e.joinerWoken = true := by
  simp only [List.mem_cons, List.not_mem_nil, or_false] at hread
  rcases hread with rfl | rfl | rfl <;> cases e <;> cases hj <;> rfl

theorem TargetPc.ended_of_joinerWoken (h : pc.phase.joinerWoken = true) : pc.ended = true := by
  cases pc with
  | exit e => cases e <;> cases h <;> rfl
  | _ => cases h

theorem second_waits (hk : SecondRefused e j k) (hleft : k ≠ .left)
    (h : (JoinSys.ofPhase v x pc e j k).joinStep .second = none) :
    k = .checked ∧ (JoinSys.ofPhase v x pc e j k).busy = true := by
  have hpcs := hk.pcs
  cases k with
  | checked =>
    refine ⟨rfl, ?_⟩
    by_contra hbusy
    simp only [JoinSys.joinStep, JoinSys.joiner, Bool.eq_false_iff.mpr hbusy] at h
    cases h
  | sawRunning =>
    obtain ⟨rfl, rfl⟩ := hk.waits rfl
    cases h
  | left => cases hleft rfl
  | called => cases h
  | locked => cases h
  | refused => cases h
  | _ => simp at hpcs

theorem JoinSys.Fits.joinRight (hs : s.Fits v) : JoinRight v s := by
  obtain ⟨x, pc, j, k, hj, hk⟩ := hs
  have hsecond : ∀ rc, (JoinSys.ofPhase v x pc pc.phase j k).second.rc = some rc → rc = EINVAL := by
    intro rc hrc
    by_cases hleft : k = .left
    · subst hleft
      cases hrc
      rfl
    · simp [JoinSys.ofPhase, hleft] at hrc
  have hfirst : ∀ rc, (JoinSys.ofPhase v x pc pc.phase j k).first.rc = some rc →
      rc = 0 ∧ j = .left := by
    intro rc hrc
    by_cases hleft : j = .left
    · subst hleft
      cases hrc
      exact ⟨rfl, rfl⟩
    · simp [JoinSys.ofPhase, hleft] at hrc
  refine ⟨?_, fun rc hrc => (hfirst rc hrc).1, hsecond, ?_, ?_, ?_, ?_⟩
  · intro w hrc hptr
    cases w with
    | first =>
      obtain ⟨-, rfl⟩ := hfirst 0 hrc
      have hptr : x.hasPtr = true := hptr
      simp [JoinSys.ofPhase, JoinSys.joiner, hptr]
    | second =>
      exact absurd (hsecond 0 hrc) (by decide)
  · intro s' hdomain htime hstep
    obtain ⟨k', -, rfl⟩ := secondStep_ofPhase hj hk hdomain htime hstep
    rfl
  · intro hleft hnone
    exact second_waits hk hleft hnone
  · intro hbusy
    have hbusy : (j != .left && (pc.phase.holds || j.holds
      || (pc.phase == .running && j == .waiting && k.contends))) = true := hbusy
    simp only [Bool.and_eq_true, Bool.or_eq_true] at hbusy
    rcases hbusy.2 with (h | h) | h
    · exact Or.inl h
    · exact Or.inr (Or.inl h)
    · exact Or.inr (Or.inr h.2)
  · intro hread
    exact TargetPc.ended_of_joinerWoken (joinerWoken_of_reading hj hread)

/-- **Join returns the exit value**, in every interleaving of the target, with any number of yields
before its exit, and the first joiner, before or behind the exit, and a second one that calls while
the first is registered and the target has not exited, if the second one has the lock before the
exit takes it. -/
theorem join_returns_exit_value {exitPtr : Nat} {hasPtr hasPtr₂ : Bool} {s : JoinSys}
    (h : Reaches joinSysStep (fun s a => JoinDomain s a ∧ JoinInTime s a)
      (.initial exitPtr hasPtr hasPtr₂) s) : JoinRight exitPtr s :=
  (join_run h).joinRight

def startAndRegister : List JoinAct :=
  List.replicate 7 (.target none) ++ [.target (some 5)] ++ List.replicate 11 (.target none)
    ++ List.replicate 5 (.join .first)

def refusedInTime : List JoinAct :=
  startAndRegister ++ List.replicate 5 (.join .second) ++ List.replicate 13 (.target none)
    ++ List.replicate 3 (.join .first)

def refusedInTimeState : JoinSys :=
  (exec joinSysStep (fun s a => JoinDomain s a ∧ JoinInTime s a) (.initial 7 true true)
    refusedInTime).getD (.initial 7 true true)

theorem join_returns_exit_value_refused :
    Reaches joinSysStep (fun s a => JoinDomain s a ∧ JoinInTime s a) (.initial 7 true true)
        refusedInTimeState
      ∧ refusedInTimeState.first.rc = some 0 ∧ refusedInTimeState.first.stored = some 7
      ∧ refusedInTimeState.second.rc = some EINVAL := by
  have hreach : Reaches joinSysStep (fun s a => JoinDomain s a ∧ JoinInTime s a)
      (.initial 7 true true) refusedInTimeState := exec_reaches refusedInTime rfl
  exact ⟨hreach, by decide, (join_returns_exit_value hreach).value .first (by decide) (by decide),
    by decide⟩

def lockBehindExit : List JoinAct :=
  startAndRegister ++ [.join .second] ++ List.replicate 13 (.target none)
    ++ List.replicate 5 (.join .second) ++ List.replicate 3 (.join .first)

def lockBehindExitState : JoinSys :=
  (exec joinSysStep JoinDomain (.initial 7 true true) lockBehindExit).getD (.initial 7 true true)

/-- **The second joiner is not refused**: it gets the exit value and frees the target, the first one
reads cleared memory, returns 0 as well and frees the target again. -/
theorem second_joiner_frees :
    Reaches joinSysStep JoinDomain (.initial 7 true true) lockBehindExitState
      ∧ lockBehindExitState.second.rc = some 0
      ∧ lockBehindExitState.first.rc = some 0 ∧ lockBehindExitState.first.stored = some 0
      ∧ lockBehindExitState.freed = 2 ∧ ¬ JoinRight 7 lockBehindExitState := by
  refine ⟨exec_reaches lockBehindExit rfl, by decide, by decide, by decide, by decide, ?_⟩
  intro h
  exact absurd (h.value .first (by decide) (by decide)) (by decide)

end RktIo.Sched
