import RktIo.Lib.Transition
import RktIo.Sched.Futex

/-!
# Futex calls and ticks as a concurrent system

Any number of lthreads call `syscall_SYS_futex`, any number of schedulers call `futex_tick`.
A step is one of: the part of the call before the lock, taking the lock, everything a call
does under the lock, giving it back, the scheduler running the yield callback of an lthread
that went to sleep, a scheduler taking an lthread from its queue, the return from the sleep,
and the corresponding parts of a tick; further a store to a futex word.

The lock is free or held; the tickets that order the waiting callers are not modelled, so a
run here may serve them in any order. The state also carries a record of every call
(`CallRec`), which no step reads.
-/

namespace RktIo.Sched

open Walk Transition

/-! ## One call -/

inductive FutexOp where
  | waitBitset
  | wait
  | wakeBitset
  | wake
  | cmpRequeue
  | requeue
  | invalid
  deriving Repr, DecidableEq

def FutexOp.ofInt (op : BitVec 32) : FutexOp :=
  if op = FUTEX_WAIT_BITSET then .waitBitset
  else if op = FUTEX_WAIT then .wait
  else if op = FUTEX_WAKE_BITSET then .wakeBitset
  else if op = FUTEX_WAKE then .wake
  else if op = FUTEX_CMP_REQUEUE then .cmpRequeue
  else if op = FUTEX_REQUEUE then .requeue
  else .invalid

/-- The arguments of `syscall_SYS_futex`; `timespec` is what the pointer `timeout` points
to. -/
structure FutexArgs where
  uaddr : BitVec 64
  op : BitVec 32
  val : BitVec 32
  timeout : BitVec 64
  timespec : Timespec
  uaddr2 : BitVec 64
  val3 : BitVec 32
  deriving Repr, DecidableEq

def FutexArgs.futexOp (a : FutexArgs) : FutexOp :=
  .ofInt (a.op &&& ~~~FUTEX_PRIVATE &&& ~~~FUTEX_CLOCK_REALTIME)

structure Frame where
  args : FutexArgs
  clock : Nat
  now : Timespec
  deriving Repr, DecidableEq

/-- The part of `syscall_SYS_futex` before the lock; `time` is what `clock_gettime` returns.
The result is `none` for the early return of `-ENOSYS`. -/
def futexPrelude (a : FutexArgs) (time : Timespec) : Option Frame :=
  let op := a.op &&& ~~~FUTEX_PRIVATE
  if op &&& FUTEX_CLOCK_REALTIME ≠ 0 ∧ op &&& (FUTEX_WAIT ||| FUTEX_WAIT_BITSET) = 0 then none
  else
    some
      { args := a
        clock := if op &&& FUTEX_CLOCK_REALTIME ≠ 0 then CLOCK_REALTIME else CLOCK_MONOTONIC
        -- the timeout of `FUTEX_WAIT` is relative, the others are absolute
        now := if op &&& ~~~FUTEX_CLOCK_REALTIME = FUTEX_WAIT then time else ⟨0, 0⟩ }

inductive Outcome where
  /-- With a return value, and the lock still to give back. -/
  | done (rc : Int)
  /-- By the context switch in `_lthread_yield_cb`. -/
  | sleeps
  deriving Repr, DecidableEq

/-- What a call does under the lock. `compared` is the value `futex_wait` read. -/
structure Section where
  queues : List FutexQ
  sleepers : Int
  unlinked : List FutexQ
  compared : Option (BitVec 32)
  outcome : Outcome

def futexWait (queues : List FutexQ) (sleepers : Int) (word : BitVec 64 → BitVec 32) (lt : Lt)
    (f : Frame) (bitset : BitVec 32) : Section :=
  let r := word f.args.uaddr
  if r = f.args.val then
    let fq := futexWaitNew lt f.args.uaddr bitset
    let fq := if f.args.timeout ≠ 0 then
        { fq with
          clock := f.clock
          futexDeadline := timespecToUsec f.now + timespecToUsec f.args.timespec }
      else fq
    ⟨fq :: queues, sleepers + 1, [], some r, .sleeps⟩
  else ⟨queues, sleepers, [], some r, .done (-EAGAIN)⟩

def Section.skip (queues : List FutexQ) (sleepers : Int) (rc : Int) : Section :=
  ⟨queues, sleepers, [], none, .done rc⟩

def Section.unlink {σ : Type} (sleepers : Int) (r : Walked FutexQ σ) (w : Nat) : Section :=
  ⟨r.kept, sleepers - r.unlinked.length, r.unlinked, none, .done (BitVec.ofNat 32 w).toInt⟩

/-- The `switch` of `syscall_SYS_futex`. A failed comparison in `FUTEX_CMP_REQUEUE` leaves
`rc` uninitialised (`rc == -EAGAIN` is no assignment); `junk` is what it holds. -/
def futexSwitch (queues : List FutexQ) (sleepers : Int) (word : BitVec 64 → BitVec 32) (lt : Lt)
    (f : Frame) (junk : Int) : Section :=
  let a := f.args
  let wake (bitset : BitVec 32) : Section :=
    let r := futexWake queues a.uaddr a.val bitset
    .unlink sleepers r r.acc
  let requeue : Section :=
    let r := futexRequeue queues a.uaddr a.uaddr2 a.val (a.timeout.setWidth 32)
    .unlink sleepers r r.acc.w
  match a.futexOp with
  | .waitBitset =>
    if a.val3 = 0 then .skip queues sleepers (-EINVAL)
    else futexWait queues sleepers word lt f a.val3
  | .wait => futexWait queues sleepers word lt f FUTEX_BITSET_MATCH_ANY
  | .wakeBitset => if a.val3 = 0 then .skip queues sleepers (-EINVAL) else wake a.val3
  | .wake => wake FUTEX_BITSET_MATCH_ANY
  | .cmpRequeue => if word a.uaddr ≠ a.val3 then .skip queues sleepers junk else requeue
  | .requeue => requeue
  | .invalid => .skip queues sleepers (-ENOSYS)

/-! ## The parties -/

/-- Who unlinked an entry: `futex_wake` and `futex_requeue`, or `futex_tick`. -/
inductive Waker where
  | wake
  | tick
  deriving Repr, DecidableEq

def Waker.err : Waker → Int
  | .wake => FUTEX_NONE
  | .tick => FUTEX_EXPIRED

/-- The record of a call: how often it took and gave back the lock and went to sleep, who
handed its lthread to the scheduler, the value `futex_wait` compared and the return value. -/
structure CallRec where
  args : FutexArgs
  acquires : Nat := 0
  releases : Nat := 0
  sleeps : Nat := 0
  handedBy : List Waker := []
  compared : Option (BitVec 32) := none
  rc : Option Int := none
  deriving Repr, DecidableEq

inductive Pc where
  /-- Outside `syscall_SYS_futex`. -/
  | user
  /-- At `ticket_lock`. -/
  | called (f : Frame)
  /-- At the `switch`. -/
  | locked (f : Frame)
  /-- At `ticket_unlock`. -/
  | unlocking (rc : Int)
  /-- Switched out by `__do_futex_sleep`. -/
  | asleep
  /-- Behind the context switch of `__do_futex_sleep`. -/
  | resumed
  deriving Repr, DecidableEq

/-- An lthread. `callback` says that the scheduler it ran on has still to run its yield
callback `__do_futex_unlock`; `cur` and `past` are the records of its calls. -/
structure Caller where
  pc : Pc
  err : Int
  callback : Bool
  cur : Option CallRec
  past : List CallRec
  deriving Repr, DecidableEq

inductive TickPc where
  | idle
  /-- Behind the check for sleepers. -/
  | seen
  /-- At the loop. -/
  | locked (currUsecReal currUsecMntc : BitVec 64)
  /-- At `ticket_unlock`. -/
  | unlocking
  deriving Repr, DecidableEq

/-- A scheduler in `futex_tick`, with how often it took and gave back the lock. -/
structure Ticker where
  pc : TickPc
  acquires : Nat
  releases : Nat
  deriving Repr, DecidableEq

inductive Holder where
  | caller (lt : Lt)
  | tick (sched : Nat)
  deriving Repr, DecidableEq

/-- The system: the static variables of `futex.c`, the memory, the scheduler queue, and the
lthreads and schedulers. -/
structure FutexSys where
  queues : List FutexQ
  sleepers : Int
  lock : Option Holder
  init : Bool
  word : BitVec 64 → BitVec 32
  schedQueue : List Lt
  lts : Lt → Caller
  ticks : Nat → Ticker

structure FutexSys.Initial (s : FutexSys) : Prop where
  queues : s.queues = []
  sleepers : s.sleepers = 0
  lock : s.lock = none
  init : s.init = false
  schedQueue : s.schedQueue = []
  lts : ∀ t, (s.lts t).pc = .user ∧ (s.lts t).callback = false ∧ (s.lts t).cur = none
    ∧ (s.lts t).past = []
  ticks : ∀ k, s.ticks k = ⟨.idle, 0, 0⟩

/-! ## Steps -/

def Caller.note (c : Caller) (f : CallRec → CallRec) : Caller := { c with cur := c.cur.map f }

def Caller.ret (c : Caller) (rc : Int) : Caller :=
  { c with
    pc := .user
    cur := none
    past := c.past ++ (c.cur.map (fun r => { r with rc := some rc })).toList }

def Caller.handed (w : Waker) (c : Caller) : Caller :=
  { c.note (fun r => { r with handedBy := r.handedBy ++ [w] }) with err := w.err }

def handOver (w : Waker) : List Lt → (Lt → Caller) → (Lt → Caller)
  | [], cs => cs
  | t :: ts, cs => handOver w ts (Function.update cs t ((cs t).handed w))

inductive FutexStep where
  | call (t : Lt) (args : FutexArgs) (time : Timespec)
  | acquire (t : Lt)
  | switch (t : Lt) (junk : Int)
  | release (t : Lt)
  | callback (t : Lt)
  | resume
  | wakeRet (t : Lt)
  | setErr (t : Lt) (err : Int)
  | store (uaddr : BitVec 64) (val : BitVec 32)
  | tickRead (k : Nat)
  | tickTry (k : Nat) (currUsecReal currUsecMntc : BitVec 64)
  | tickLoop (k : Nat)
  | tickUnlock (k : Nat)
  deriving Repr, DecidableEq

def FutexSys.setLt (s : FutexSys) (t : Lt) (c : Caller) : FutexSys :=
  { s with lts := Function.update s.lts t c }

def FutexSys.setTick (s : FutexSys) (k : Nat) (c : Ticker) : FutexSys :=
  { s with ticks := Function.update s.ticks k c }

/-- The end of a critical section: the queue is as the section leaves it, and the lthreads
of the unlinked entries are handed to the scheduler. -/
def FutexSys.leave (s : FutexSys) (queues : List FutexQ) (sleepers : Int)
    (unlinked : List FutexQ) (w : Waker) : Option FutexSys :=
  (futexLts unlinked).map (fun lts =>
    { s with
      queues := queues
      sleepers := sleepers
      schedQueue := s.schedQueue ++ lts
      lts := handOver w lts s.lts })

def Caller.switched (c : Caller) (r : Section) : Caller :=
  match r.outcome with
  | .done rc => { c.note (fun n => { n with compared := r.compared }) with pc := .unlocking rc }
  | .sleeps =>
    { c.note (fun n => { n with compared := r.compared, sleeps := n.sleeps + 1 }) with
      pc := .asleep
      callback := true }

def futexStep (s : FutexSys) : FutexStep → Option FutexSys
  | .call t args time =>
    let c := s.lts t
    if c.pc ≠ .user then none
    else
      let s := { s with lock := if s.init then none else s.lock, init := false }
      let c := { c with cur := some { args := args } }
      match futexPrelude args time with
      | none => some (s.setLt t (c.ret (-ENOSYS)))
      | some f => some (s.setLt t { c with pc := .called f })
  | .acquire t =>
    let c := s.lts t
    match c.pc with
    | .called f =>
      if s.lock ≠ none then none
      else
        let c := c.note (fun n => { n with acquires := n.acquires + 1 })
        some ({ s with lock := some (.caller t) }.setLt t { c with pc := .locked f })
    | _ => none
  | .switch t junk =>
    let c := s.lts t
    match c.pc with
    | .locked f =>
      let r := futexSwitch s.queues s.sleepers s.word t f junk
      (s.setLt t (c.switched r)).leave r.queues r.sleepers r.unlinked .wake
    | _ => none
  | .release t =>
    let c := s.lts t
    match c.pc with
    | .unlocking rc =>
      let c := c.note (fun n => { n with releases := n.releases + 1 })
      some ({ s with lock := none }.setLt t (c.ret rc))
    | _ => none
  | .callback t =>
    let c := s.lts t
    if c.callback then
      let c := c.note (fun n => { n with releases := n.releases + 1 })
      some ({ s with lock := none }.setLt t { c with callback := false })
    else none
  | .resume =>
    match s.schedQueue with
    | [] => none
    | t :: queue =>
      let c := s.lts t
      if c.pc = .asleep then some ({ s with schedQueue := queue }.setLt t { c with pc := .resumed })
      else none
  | .wakeRet t =>
    let c := s.lts t
    if c.pc = .resumed then
      some (s.setLt t (c.ret (if c.err = FUTEX_EXPIRED then -ETIMEDOUT else 0)))
    else none
  | .setErr t err =>
    let c := s.lts t
    if c.pc = .user then some (s.setLt t { c with err := err }) else none
  | .store uaddr val => some { s with word := Function.update s.word uaddr val }
  | .tickRead k =>
    let c := s.ticks k
    if c.pc = .idle ∧ s.sleepers ≠ 0 then some (s.setTick k { c with pc := .seen }) else none
  | .tickTry k real mntc =>
    let c := s.ticks k
    if c.pc = .seen then
      if s.lock = none then
        some ({ s with lock := some (.tick k) }.setTick k
          { c with pc := .locked real mntc, acquires := c.acquires + 1 })
      else some (s.setTick k { c with pc := .idle })
    else none
  | .tickLoop k =>
    let c := s.ticks k
    match c.pc with
    | .locked real mntc =>
      let r := futexTick s.queues real mntc
      (s.setTick k { c with pc := .unlocking }).leave r.kept (s.sleepers - r.unlinked.length)
        r.unlinked .tick
    | _ => none
  | .tickUnlock k =>
    let c := s.ticks k
    if c.pc = .unlocking then
      some ({ s with lock := none }.setTick k { c with pc := .idle, releases := c.releases + 1 })
    else none

end RktIo.Sched
