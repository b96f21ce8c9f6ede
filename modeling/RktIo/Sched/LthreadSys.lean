import RktIo.Lib.Transition
import RktIo.Sched.Futex

/-!
# Lthreads and schedulers (`src/sched/lthread.c`)

The life of lthreads: any number of schedulers run `lthread_run`, taking lthreads from the
scheduler queue and from the return queue of the host calls; a running lthread yields,
makes host calls, waits on futexes, joins, detaches and cancels other lthreads, and exits.

A step is what one party does between two points where others can interfere. The code that
an lthread runs before a context switch and the yield callback that the scheduler runs
after it are two steps; `_lthread_resume` has one step for each of its looks at the state
word, `lthread_join` one before and one behind the lock, and `lthread_cancel` one that marks
and one that enqueues. A party that spins on a lock cannot step. The wake-up of the joiner,
the reset of `lt_join` and the unlock are one step of the exit, in which the lock is held.

An lthread is identified by its address, and an address can be used again when the lthread
was freed. `none` is a step that is not possible, or that dereferences freed memory.

Not modelled are the fields that no modelled function reads (stack, context, thread-local
storage, names, `sleep_usecs`: nothing sets `LT_ST_SLEEPING` in this version) and the data
of host calls.
-/

namespace RktIo.Sched

open Walk Transition

abbrev Slot := Nat

/-! ## Lthreads -/

inductive Cont where
  | user
  /-- In `lthread_join(t)`, before the lock. -/
  | locking (t : Lt)
  /-- In `lthread_join(t)`, with only the reading of the result and the free to come. -/
  | joining (t : Lt)
  deriving Repr, DecidableEq

/-- `struct lthread`, the bits of `attr.state` as flags. Four fields are not in the source:
`joinCalls`, the lthreads that are before the lock in an `lthread_join` of this one;
`joinedBy`, the lthread whose `lthread_join` is past the lock; `seen`, whether a scheduler
is between this lthread's exit and the end of `_lthread_resume`; and `reaped`, whether a
scheduler has found this lthread cancelled. -/
structure Lthread where
  live : Bool
  new : Bool
  exited : Bool
  busy : Bool
  detach : Bool
  cancelled : Bool
  cancelState : Bool
  pinned : Bool
  ltJoin : Option Lt
  slot : Slot
  cont : Cont
  joinCalls : List Lt
  joinedBy : Option Lt
  seen : Bool
  reaped : Bool
  deriving Repr, DecidableEq

def Lthread.freed : Lthread where
  live := false
  new := false
  exited := false
  busy := false
  detach := false
  cancelled := false
  cancelState := false
  pinned := false
  ltJoin := none
  slot := 0
  cont := .user
  joinCalls := []
  joinedBy := none
  seen := false
  reaped := false

def Lthread.created (slot : Slot) (detach : Bool) : Lthread :=
  { Lthread.freed with live := true, new := true, detach := detach, slot := slot }

def Lthread.init (c : Lthread) : Lthread :=
  { c with
    new := false, exited := false, busy := false, cancelled := false, cancelState := false
    pinned := false }

/-! ## Schedulers -/

/-- Yield callbacks: `__scheduler_enqueue` of the lthread itself, `submitsc` of its slot,
`__do_futex_unlock`, and `_lthread_unlock` of the lthread it joins. -/
inductive YieldCb where
  | resched
  | submit
  | futexUnlock
  | unlock (t : Lt)
  deriving Repr, DecidableEq

inductive SchedState where
  | idle
  /-- The lthread was taken from a queue, `LT_ST_CANCELLED` has still to be read. -/
  | resuming (lt : Lt)
  /-- The lthread was found not cancelled. -/
  | starting (lt : Lt)
  | running (lt : Lt)
  /-- The lthread busy-waits for a host call. -/
  | syncWait (lt : Lt)
  /-- The lthread is switched out, its yield callback has still to run. -/
  | switched (lt : Lt) (cb : YieldCb)
  /-- The lthread is switched out with `LT_ST_EXITED` set. -/
  | exiting (lt : Lt)
  /-- The exited lthread is unlocked, `LT_ST_DETACH` has still to be read. -/
  | unlocked (lt : Lt)
  deriving Repr, DecidableEq

/-- The system. `cancels` are the lthreads that `lthread_cancel` has marked and not yet
enqueued, `doubleFree` says whether an lthread was freed that was not live; they are not in
the source. -/
structure LthreadSys where
  scheds : Nat → SchedState
  lts : Lt → Lthread
  schedQueue : List Lt
  futexQueues : List FutexQ
  futexLocked : Bool
  syscallQueue : List Slot
  host : List Slot
  returnQueue : List Slot
  slotlthreads : Slot → Option Lt
  status : Slot → Nat
  alwaysSync : Bool
  cancels : List Lt
  doubleFree : Bool

def LthreadSys.initial (alwaysSync : Bool) : LthreadSys where
  scheds := fun _ => .idle
  lts := fun _ => .freed
  schedQueue := []
  futexQueues := []
  futexLocked := false
  syscallQueue := []
  host := []
  returnQueue := []
  slotlthreads := fun _ => none
  status := fun _ => 0
  alwaysSync := alwaysSync
  cancels := []
  doubleFree := false

/-! ## Operations -/

namespace LthreadSys

def modify (s : LthreadSys) (t : Lt) (f : Lthread → Lthread) : LthreadSys :=
  { s with lts := Function.update s.lts t (f (s.lts t)) }

def setSched (s : LthreadSys) (k : Nat) (st : SchedState) : LthreadSys :=
  { s with scheds := Function.update s.scheds k st }

def enqueue (s : LthreadSys) (ts : List Lt) : LthreadSys :=
  { s with schedQueue := s.schedQueue ++ ts }

def free (s : LthreadSys) (t : Lt) : LthreadSys :=
  if (s.lts t).live then
    { s with
      lts := Function.update s.lts t .freed
      slotlthreads := Function.update s.slotlthreads (s.lts t).slot none }
  else { s with doubleFree := true }

def wakeJoiner (s : LthreadSys) (t : Lt) : LthreadSys :=
  (s.enqueue (s.lts t).ltJoin.toList).modify t (fun c => { c with ltJoin := none })

def resume (s : LthreadSys) (k : Nat) (t : Lt) : Option LthreadSys :=
  let c := s.lts t
  if !c.live then none
  else if c.cancelled then
    let s := (s.wakeJoiner t).modify t (fun c => { c with reaped := true })
    some ((if c.detach then s.free t else s).setSched k .idle)
  else some (s.setSched k (.starting t))

def start (s : LthreadSys) (k : Nat) (t : Lt) : Option LthreadSys :=
  let c := s.lts t
  if !c.live then none
  else if c.new then
    -- `_lthread_init` takes the lock
    if c.busy then none else some ((s.modify t Lthread.init).setSched k (.running t))
  else some (s.setSched k (.running t))

def finish (s : LthreadSys) (k : Nat) (t : Lt) : Option LthreadSys :=
  if !(s.lts t).live then none
  else
    some (((s.wakeJoiner t).modify t (fun c => { c with busy := false })).setSched k
      (.unlocked t))

def reclaim (s : LthreadSys) (k : Nat) (t : Lt) : Option LthreadSys :=
  if !(s.lts t).live then none
  else
    let s := s.modify t (fun c => { c with seen := false })
    some ((if (s.lts t).detach then s.free t else s).setSched k .idle)

def callback (s : LthreadSys) (k : Nat) (t : Lt) (cb : YieldCb) : Option LthreadSys :=
  let s := s.setSched k .idle
  match cb with
  | .resched => some (s.enqueue [t])
  | .submit => some { s with syscallQueue := s.syscallQueue ++ [(s.lts t).slot] }
  | .futexUnlock => some { s with futexLocked := false }
  | .unlock u =>
    if (s.lts u).live then some (s.modify u (fun c => { c with busy := false })) else none

def join (s : LthreadSys) (a t : Lt) : Option LthreadSys :=
  if !(s.lts t).live then none
  else if (s.lts t).detach then some s
  else
    some ((s.modify t (fun c => { c with joinCalls := a :: c.joinCalls })).modify a
      (fun c => { c with cont := .locking t }))

def joinLock (s : LthreadSys) (k : Nat) (a t : Lt) : Option LthreadSys :=
  if !(s.lts t).live ∨ (s.lts t).busy then none
  else
    let s := s.modify t (fun c => { c with joinCalls := c.joinCalls.filter (· ≠ a) })
    if (s.lts t).exited then
      some ((s.modify t (fun c => { c with joinedBy := some a })).modify a
        (fun c => { c with cont := .joining t }))
    else
      match (s.lts t).ltJoin with
      | some _ =>
        -- `EINVAL`: there already is a joiner
        some (s.modify a (fun c => { c with cont := .user }))
      | none =>
        let s := s.modify t
          (fun c => { c with ltJoin := some a, busy := true, joinedBy := some a })
        some ((s.modify a (fun c => { c with cont := .joining t })).setSched k
          (.switched a (.unlock t)))

def hostCall (s : LthreadSys) (k : Nat) (a : Lt) : LthreadSys :=
  let slot := (s.lts a).slot
  if !s.alwaysSync && !(s.lts a).pinned then s.setSched k (.switched a .submit)
  else
    { s with
      status := Function.update s.status slot 1
      syscallQueue := s.syscallQueue ++ [slot] }.setSched k (.syncWait a)

def futexWalk {σ : Type} (s : LthreadSys) (r : Walked FutexQ σ) : Option LthreadSys :=
  if s.futexLocked then none
  else
    (futexLts r.unlinked).map (fun ts => { s with futexQueues := r.kept }.enqueue ts)

def futexWait (s : LthreadSys) (k : Nat) (a : Lt) (fq : FutexQ) : Option LthreadSys :=
  if s.futexLocked then none
  else
    some ({ s with futexQueues := fq :: s.futexQueues, futexLocked := true }.setSched k
      (.switched a .futexUnlock))

section Updates

variable {s : LthreadSys} {t u : Lt} {j k : Nat}

@[simp]
theorem modify_lts_self (f : Lthread → Lthread) : (s.modify t f).lts t = f (s.lts t) := by
  simp [modify]

theorem modify_lts_of_ne (f : Lthread → Lthread) (h : u ≠ t) : (s.modify t f).lts u = s.lts u :=
  Function.update_of_ne h _ _

theorem modify_modify (f g : Lthread → Lthread) :
    (s.modify t f).modify t g = s.modify t (fun c => g (f c)) := by
  simp [modify]

@[simp]
theorem setSched_self (st : SchedState) : (s.setSched k st).scheds k = st := by
  simp [setSched]

theorem setSched_of_ne (st : SchedState) (h : j ≠ k) : (s.setSched k st).scheds j = s.scheds j :=
  Function.update_of_ne h _ _

theorem free_eq (h : (s.lts t).live = true) :
    s.free t = { s with
      lts := Function.update s.lts t .freed
      slotlthreads := Function.update s.slotlthreads (s.lts t).slot none } := by
  unfold free
  rw [if_pos h]

end Updates

end LthreadSys

/-! ## Steps -/

inductive LtStep where
  | create (t : Lt) (slot : Slot) (detach : Bool)
  | resume (k : Nat)
  | resumeRet (k : Nat)
  | check (k : Nat)
  | start (k : Nat)
  | callback (k : Nat)
  | yield (k : Nat)
  | hostCall (k : Nat)
  | syncDone (k : Nat)
  | hostTake
  | hostDone (slot : Slot)
  | futexWait (k : Nat) (uaddr : BitVec 64) (bitset : BitVec 32) (clock : Nat)
      (deadline : BitVec 64)
  | futexWake (uaddr : BitVec 64) (num bitset : BitVec 32)
  | futexRequeue (uaddr uaddr2 : BitVec 64) (num limit : BitVec 32)
  | futexTick (currUsecReal currUsecMntc : BitVec 64)
  | join (k : Nat) (t : Lt)
  | joinLock (k : Nat)
  | joinFinish (k : Nat)
  | exit (k : Nat)
  | finish (k : Nat)
  | reclaim (k : Nat)
  | detach2 (t : Lt)
  | cancel (t : Lt)
  | cancelEnqueue (t : Lt)
  | setCancelState (k : Nat) (disabled : Bool)
  | setPinned (k : Nat) (pinned : Bool)
  deriving Repr, DecidableEq

def LthreadSys.runsOn (s : LthreadSys) (k : Nat) : Option (Lt × Cont) :=
  match s.scheds k with
  | .running a => if (s.lts a).live then some (a, (s.lts a).cont) else none
  | _ => none

def LthreadSys.userOn (s : LthreadSys) (k : Nat) : Option Lt :=
  match s.runsOn k with
  | some (a, .user) => some a
  | _ => none

theorem LthreadSys.runsOn_eq {s : LthreadSys} {k : Nat} {a : Lt} {c : Cont}
    (h : s.runsOn k = some (a, c)) : s.scheds k = .running a ∧ (s.lts a).cont = c := by
  unfold LthreadSys.runsOn at h
  split at h
  · rename_i b hk
    split at h
    · cases h
      exact ⟨hk, rfl⟩
    · cases h
  · cases h

theorem LthreadSys.userOn_eq {s : LthreadSys} {k : Nat} {a : Lt} (h : s.userOn k = some a) :
    s.scheds k = .running a ∧ (s.lts a).cont = .user := by
  unfold LthreadSys.userOn at h
  split at h
  · rename_i hr
    cases h
    exact LthreadSys.runsOn_eq hr
  · cases h

def ltStep (s : LthreadSys) : LtStep → Option LthreadSys
  | .create t slot detach =>
    if (s.lts t).live ∨ s.slotlthreads slot ≠ none then none
    else
      some ({ s with
        lts := Function.update s.lts t (.created slot detach)
        slotlthreads := Function.update s.slotlthreads slot (some t) }.enqueue [t])
  | .resume k =>
    match s.scheds k, s.schedQueue with
    | .idle, t :: queue => some ({ s with schedQueue := queue }.setSched k (.resuming t))
    | _, _ => none
  | .resumeRet k =>
    match s.scheds k, s.returnQueue with
    | .idle, slot :: queue =>
      (s.slotlthreads slot).map
        (fun t => { s with returnQueue := queue }.setSched k (.resuming t))
    | _, _ => none
  | .check k =>
    match s.scheds k with
    | .resuming t => s.resume k t
    | _ => none
  | .start k =>
    match s.scheds k with
    | .starting t => s.start k t
    | _ => none
  | .callback k =>
    match s.scheds k with
    | .switched t cb => s.callback k t cb
    | _ => none
  | .yield k => (s.userOn k).map (fun a => s.setSched k (.switched a .resched))
  | .hostCall k => (s.userOn k).map (fun a => s.hostCall k a)
  | .syncDone k =>
    match s.scheds k with
    | .syncWait a =>
      let slot := (s.lts a).slot
      if s.status slot = 2 then
        some ({ s with status := Function.update s.status slot 0 }.setSched k (.running a))
      else none
    | _ => none
  | .hostTake =>
    match s.syscallQueue with
    | [] => none
    | slot :: queue => some { s with syscallQueue := queue, host := s.host ++ [slot] }
  | .hostDone slot =>
    if slot ∉ s.host then none
    else if s.status slot = 1 then
      -- submitted by the scheduler or a pinned thread: nothing goes to the return queue
      some { s with host := s.host.erase slot, status := Function.update s.status slot 2 }
    else some { s with host := s.host.erase slot, returnQueue := s.returnQueue ++ [slot] }
  | .futexWait k uaddr bitset clock deadline =>
    (s.userOn k).bind (fun a => s.futexWait k a
      { futexWaitNew a uaddr bitset with clock := clock, futexDeadline := deadline })
  | .futexWake uaddr num bitset => s.futexWalk (futexWake s.futexQueues uaddr num bitset)
  | .futexRequeue uaddr uaddr2 num limit =>
    s.futexWalk (futexRequeue s.futexQueues uaddr uaddr2 num limit)
  | .futexTick real mntc => s.futexWalk (futexTick s.futexQueues real mntc)
  | .join k t => (s.userOn k).bind (fun a => s.join a t)
  | .joinLock k =>
    match s.runsOn k with
    | some (a, .locking t) => s.joinLock k a t
    | _ => none
  | .joinFinish k =>
    match s.runsOn k with
    | some (a, .joining t) => some ((s.modify a (fun c => { c with cont := .user })).free t)
    | _ => none
  | .exit k =>
    (s.userOn k).bind (fun a =>
      if (s.lts a).busy then none
      else
        some ((s.modify a
          (fun c => { c with exited := true, busy := true, seen := true })).setSched k
          (.exiting a)))
  | .finish k =>
    match s.scheds k with
    | .exiting t => s.finish k t
    | _ => none
  | .reclaim k =>
    match s.scheds k with
    | .unlocked t => s.reclaim k t
    | _ => none
  | .detach2 t =>
    if (s.lts t).live ∧ ¬ (s.lts t).busy then some (s.modify t (fun c => { c with detach := true }))
    else none
  | .cancel t =>
    if !(s.lts t).live then none
    else if (s.lts t).cancelState then some s
    else
      some { s.modify t (fun c => { c with cancelled := true }) with cancels := t :: s.cancels }
  | .cancelEnqueue t =>
    if t ∈ s.cancels then some ({ s with cancels := s.cancels.erase t }.enqueue [t]) else none
  | .setCancelState k disabled =>
    (s.userOn k).map (fun a => s.modify a (fun c => { c with cancelState := disabled }))
  | .setPinned k pinned =>
    (s.userOn k).map (fun a => s.modify a (fun c => { c with pinned := pinned }))

inductive LtStep.Takes (s : LthreadSys) : LtStep → LthreadSys → Prop
  | create {t : Lt} {slot : Slot} {detach : Bool} (hlive : (s.lts t).live = false)
      (hslot : s.slotlthreads slot = none) :
    Takes s (.create t slot detach) ({ s with
      lts := Function.update s.lts t (.created slot detach)
      slotlthreads := Function.update s.slotlthreads slot (some t) }.enqueue [t])
  | resume {k : Nat} {t : Lt} {queue : List Lt} (hk : s.scheds k = .idle)
      (hq : s.schedQueue = t :: queue) :
    Takes s (.resume k) ({ s with schedQueue := queue }.setSched k (.resuming t))
  | resumeRet {k : Nat} {slot : Slot} {queue : List Slot} {t : Lt} (hk : s.scheds k = .idle)
      (hq : s.returnQueue = slot :: queue) (ht : s.slotlthreads slot = some t) :
    Takes s (.resumeRet k) ({ s with returnQueue := queue }.setSched k (.resuming t))
  | check {k : Nat} {t : Lt} {s' : LthreadSys} (hk : s.scheds k = .resuming t)
      (h : s.resume k t = some s') : Takes s (.check k) s'
  | start {k : Nat} {t : Lt} {s' : LthreadSys} (hk : s.scheds k = .starting t)
      (h : s.start k t = some s') : Takes s (.start k) s'
  | callback {k : Nat} {t : Lt} {cb : YieldCb} {s' : LthreadSys}
      (hk : s.scheds k = .switched t cb) (h : s.callback k t cb = some s') :
    Takes s (.callback k) s'
  | yield {k : Nat} {a : Lt} (ha : s.userOn k = some a) :
    Takes s (.yield k) (s.setSched k (.switched a .resched))
  | hostCall {k : Nat} {a : Lt} (ha : s.userOn k = some a) :
    Takes s (.hostCall k) (s.hostCall k a)
  | syncDone {k : Nat} {a : Lt} (hk : s.scheds k = .syncWait a)
      (hst : s.status (s.lts a).slot = 2) :
    Takes s (.syncDone k)
      ({ s with status := Function.update s.status (s.lts a).slot 0 }.setSched k (.running a))
  | hostTake {slot : Slot} {queue : List Slot} (hq : s.syscallQueue = slot :: queue) :
    Takes s .hostTake { s with syscallQueue := queue, host := s.host ++ [slot] }
  | hostDoneSync {slot : Slot} (hmem : slot ∈ s.host) (hst : s.status slot = 1) :
    Takes s (.hostDone slot)
      { s with host := s.host.erase slot, status := Function.update s.status slot 2 }
  | hostDone {slot : Slot} (hmem : slot ∈ s.host) (hst : s.status slot ≠ 1) :
    Takes s (.hostDone slot)
      { s with host := s.host.erase slot, returnQueue := s.returnQueue ++ [slot] }
  | futexWait {k uaddr bitset clock deadline a s'} (ha : s.userOn k = some a)
      (h : s.futexWait k a
        { futexWaitNew a uaddr bitset with clock := clock, futexDeadline := deadline } = some s') :
    Takes s (.futexWait k uaddr bitset clock deadline) s'
  | futexWake {uaddr num bitset s'}
      (h : s.futexWalk (Sched.futexWake s.futexQueues uaddr num bitset) = some s') :
    Takes s (.futexWake uaddr num bitset) s'
  | futexRequeue {uaddr uaddr2 num limit s'}
      (h : s.futexWalk (Sched.futexRequeue s.futexQueues uaddr uaddr2 num limit) = some s') :
    Takes s (.futexRequeue uaddr uaddr2 num limit) s'
  | futexTick {real mntc s'} (h : s.futexWalk (Sched.futexTick s.futexQueues real mntc) = some s') :
    Takes s (.futexTick real mntc) s'
  | join {k : Nat} {t a : Lt} {s' : LthreadSys} (ha : s.userOn k = some a)
      (h : s.join a t = some s') : Takes s (.join k t) s'
  | joinLock {k : Nat} {a t : Lt} {s' : LthreadSys} (hr : s.runsOn k = some (a, .locking t))
      (h : s.joinLock k a t = some s') : Takes s (.joinLock k) s'
  | joinFinish {k : Nat} {a t : Lt} (hr : s.runsOn k = some (a, .joining t)) :
    Takes s (.joinFinish k) ((s.modify a (fun c => { c with cont := .user })).free t)
  | exit {k : Nat} {a : Lt} (ha : s.userOn k = some a) (hbusy : (s.lts a).busy = false) :
    Takes s (.exit k) ((s.modify a
      (fun c => { c with exited := true, busy := true, seen := true })).setSched k (.exiting a))
  | finish {k : Nat} {t : Lt} {s' : LthreadSys} (hk : s.scheds k = .exiting t)
      (h : s.finish k t = some s') : Takes s (.finish k) s'
  | reclaim {k : Nat} {t : Lt} {s' : LthreadSys} (hk : s.scheds k = .unlocked t)
      (h : s.reclaim k t = some s') : Takes s (.reclaim k) s'
  | detach2 {t : Lt} (hlive : (s.lts t).live = true) (hbusy : (s.lts t).busy = false) :
    Takes s (.detach2 t) (s.modify t (fun c => { c with detach := true }))
  | cancelDisabled {t : Lt} (hstate : (s.lts t).cancelState = true) : Takes s (.cancel t) s
  | cancel {t : Lt} (hlive : (s.lts t).live = true) (hstate : (s.lts t).cancelState = false) :
    Takes s (.cancel t)
      { s.modify t (fun c => { c with cancelled := true }) with cancels := t :: s.cancels }
  | cancelEnqueue {t : Lt} (ht : t ∈ s.cancels) :
    Takes s (.cancelEnqueue t) ({ s with cancels := s.cancels.erase t }.enqueue [t])
  | setCancelState {k : Nat} {disabled : Bool} {a : Lt} (ha : s.userOn k = some a) :
    Takes s (.setCancelState k disabled) (s.modify a (fun c => { c with cancelState := disabled }))
  | setPinned {k : Nat} {pinned : Bool} {a : Lt} (ha : s.userOn k = some a) :
    Takes s (.setPinned k pinned) (s.modify a (fun c => { c with pinned := pinned }))

theorem ltStep_takes {s s' : LthreadSys} {l : LtStep} (h : ltStep s l = some s') :
    l.Takes s s' := by
  cases l with
  | create t slot detach =>
    simp only [ltStep] at h
    split_ifs at h with hused
    cases h
    simp only [not_or, not_not, Bool.not_eq_true] at hused
    exact .create hused.1 hused.2
  | resume k =>
    simp only [ltStep] at h
    split at h <;> cases h
    rename_i hk hq
    exact .resume hk hq
  | resumeRet k =>
    simp only [ltStep] at h
    split at h
    · rename_i hk hq
      obtain ⟨t, ht, rfl⟩ := Option.map_eq_some_iff.mp h
      exact .resumeRet hk hq ht
    · cases h
  | check k =>
    simp only [ltStep] at h
    split at h
    · rename_i hk
      exact .check hk h
    · cases h
  | start k =>
    simp only [ltStep] at h
    split at h
    · rename_i hk
      exact .start hk h
    · cases h
  | callback k =>
    simp only [ltStep] at h
    split at h
    · rename_i hk
      exact .callback hk h
    · cases h
  | yield k =>
    obtain ⟨a, ha, rfl⟩ := Option.map_eq_some_iff.mp h
    exact .yield ha
  | hostCall k =>
    obtain ⟨a, ha, rfl⟩ := Option.map_eq_some_iff.mp h
    exact .hostCall ha
  | syncDone k =>
    simp only [ltStep] at h
    split at h
    · rename_i hk
      split_ifs at h with hst
      cases h
      exact .syncDone hk hst
    · cases h
  | hostTake =>
    simp only [ltStep] at h
    split at h <;> cases h
    rename_i hq
    exact .hostTake hq
  | hostDone slot =>
    simp only [ltStep] at h
    split_ifs at h with hmem hst <;> cases h
    · exact .hostDoneSync hmem hst
    · exact .hostDone hmem hst
  | futexWait k uaddr bitset clock deadline =>
    obtain ⟨a, ha, h⟩ := Option.bind_eq_some_iff.mp h
    exact .futexWait ha h
  | futexWake => exact .futexWake h
  | futexRequeue => exact .futexRequeue h
  | futexTick => exact .futexTick h
  | join k t =>
    obtain ⟨a, ha, h⟩ := Option.bind_eq_some_iff.mp h
    exact .join ha h
  | joinLock k =>
    simp only [ltStep] at h
    split at h
    · rename_i hr
      exact .joinLock hr h
    · cases h
  | joinFinish k =>
    simp only [ltStep] at h
    split at h <;> cases h
    rename_i hr
    exact .joinFinish hr
  | exit k =>
    obtain ⟨a, ha, h⟩ := Option.bind_eq_some_iff.mp h
    split_ifs at h with hbusy
    cases h
    exact .exit ha (Bool.eq_false_iff.mpr hbusy)
  | finish k =>
    simp only [ltStep] at h
    split at h
    · rename_i hk
      exact .finish hk h
    · cases h
  | reclaim k =>
    simp only [ltStep] at h
    split at h
    · rename_i hk
      exact .reclaim hk h
    · cases h
  | detach2 t =>
    simp only [ltStep] at h
    split_ifs at h with hopen
    cases h
    exact .detach2 hopen.1 (Bool.eq_false_iff.mpr hopen.2)
  | cancel t =>
    simp only [ltStep] at h
    split_ifs at h with hlive hstate <;> cases h
    · exact .cancelDisabled hstate
    · exact .cancel (by simpa using hlive) (Bool.eq_false_iff.mpr hstate)
  | cancelEnqueue t =>
    simp only [ltStep] at h
    split_ifs at h with ht
    cases h
    exact .cancelEnqueue ht
  | setCancelState k d =>
    obtain ⟨a, ha, rfl⟩ := Option.map_eq_some_iff.mp h
    exact .setCancelState ha
  | setPinned k d =>
    obtain ⟨a, ha, rfl⟩ := Option.map_eq_some_iff.mp h
    exact .setPinned ha

/-! ## What a step changes -/

def LthreadSys.ForallLt (s : LthreadSys) (P : Lt → Lthread → Prop) : Prop := ∀ b, P b (s.lts b)

namespace LthreadSys.ForallLt

variable {P : Lt → Lthread → Prop} {s : LthreadSys} {t : Lt}

theorem modify {f : Lthread → Lthread} (h : s.ForallLt P) (hf : ∀ c, P t c → P t (f c)) :
    (s.modify t f).ForallLt P := by
  intro b
  simp only [LthreadSys.modify, Function.update_apply]
  split_ifs with hb
  · rw [hb]
    exact hf _ (h t)
  · exact h b

theorem modify_self {f : Lthread → Lthread} (h : ∀ b, b ≠ t → P b (s.lts b))
    (hf : P t (f (s.lts t))) : (s.modify t f).ForallLt P := by
  intro b
  rcases eq_or_ne b t with rfl | hb
  · rwa [modify_lts_self]
  · rw [modify_lts_of_ne f hb]
    exact h b hb

theorem free (h : s.ForallLt P) (ht : P t .freed) : (s.free t).ForallLt P := by
  intro b
  unfold LthreadSys.free
  split_ifs
  · simp only [Function.update_apply]
    split_ifs with hb
    · rw [hb]
      exact ht
    · exact h b
  · exact h b

theorem wakeJoiner (h : s.ForallLt P) (hf : ∀ c, P t c → P t { c with ltJoin := none }) :
    (s.wakeJoiner t).ForallLt P :=
  modify (s := s.enqueue _) h hf

theorem setSched {k : Nat} {st : SchedState} (h : s.ForallLt P) : (s.setSched k st).ForallLt P := h

end LthreadSys.ForallLt

def Lthread.lifeFields (c : Lthread) : Bool × Bool × Bool × Bool × Bool × Bool × Option Lt :=
  (c.live, c.exited, c.detach, c.cancelled, c.seen, c.reaped, c.ltJoin)

def LtStep.quiet : LtStep → Bool
  | .create .. | .check _ | .start _ | .joinLock _ | .joinFinish _ | .exit _ | .finish _
  | .reclaim _ | .detach2 _ | .cancel _ => false
  | _ => true

theorem ltStep_quiet {s s' : LthreadSys} {l : LtStep} (h : ltStep s l = some s')
    (hl : l.quiet = true) :
    s'.ForallLt (fun b c => c.lifeFields = (s.lts b).lifeFields) := by
  have hs : s.ForallLt (fun b c => c.lifeFields = (s.lts b).lifeFields) := fun _ => rfl
  cases ltStep_takes h with
  | create | check | start | joinLock | joinFinish | exit | finish | reclaim | detach2
  | cancelDisabled | cancel => cases hl
  | resume | resumeRet | yield | syncDone | hostTake | hostDoneSync | hostDone
  | cancelEnqueue => exact hs
  | callback hk h =>
    simp only [LthreadSys.callback] at h
    split at h
    · cases h
      exact hs
    · cases h
      exact hs
    · cases h
      exact hs
    · split at h <;> cases h
      exact .modify hs.setSched (fun _ hc => hc)
  | hostCall ha =>
    unfold LthreadSys.hostCall
    dsimp only
    split <;> exact hs
  | futexWait ha h =>
    unfold LthreadSys.futexWait at h
    split_ifs at h
    cases h
    exact hs
  | futexWake h | futexRequeue h | futexTick h =>
    unfold LthreadSys.futexWalk at h
    split_ifs at h
    obtain ⟨ts, -, rfl⟩ := Option.map_eq_some_iff.mp h
    exact hs
  | join ha h =>
    unfold LthreadSys.join at h
    split_ifs at h <;> cases h
    · exact hs
    · exact .modify (.modify hs (fun _ hc => hc)) (fun _ hc => hc)
  | setCancelState | setPinned => exact hs.modify (fun _ hc => hc)

end RktIo.Sched
