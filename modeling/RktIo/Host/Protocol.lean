import RktIo.Lib.Transition

/-!
# Host calls through the slots of the syscall page

The enclave side is `host/sgx_hostcall_interface.c` and the wrappers of
`host/sgx_hostcalls.c`; the host side is `host_syscall_thread` of `main/sgxlkl_run.c`; between
them are the syscall page `S`, the syscall queue and the return queue. The wrappers differ in
the number and in the arguments of their request only, and in whether the arena has to grow
for it: `arena_ensure` then makes a whole host call of its own on the same slot, before the
wrapper writes to the slot.

A scheduler runs its own code or one lthread. The slot in use is the one of whoever runs. What
lthreads do between their host calls is left open: they may yield, sleep until someone wakes
them, pin and unpin themselves, exit, and be created at any time.

The state also keeps a record of each request, which no step reads: what its submitter asked
for, what was executed for it, how often it was put into the return queue and how often its
caller was resumed from there.
-/

namespace RktIo.Host

abbrev Word := BitVec 64

/-- What a wrapper writes into its slot: `syscallno`, and `arg1` and so on as far as it has
arguments. -/
structure HostRequest where
  syscallno : Word
  args : List Word
  deriving DecidableEq

/-- `syscall_t`: `syscallno` and `ret_val` share the field `word`. -/
structure SyscallT where
  args : List Word
  word : Word
  status : Nat

def SyscallT.fill (sc : SyscallT) (req : HostRequest) : SyscallT :=
  { sc with args := req.args ++ sc.args.drop req.args.length, word := req.syscallno }

/-! ## Callers -/

inductive Caller where
  | sched (k : Nat)
  | lthread (a : Nat)
  deriving DecidableEq

/-- Where a caller is in a host call. `next` is the request of the wrapper when the call in
progress is the one that `arena_ensure` makes for it. -/
inductive CallPc where
  | idle
  /-- `sc->syscallno = …; sc->arg1 = …` -/
  | fill (req : HostRequest) (next : Option HostRequest)
  /-- `threadswitch`, up to the store of `status` or the switch to the scheduler -/
  | switch (next : Option HostRequest)
  /-- `leave_enclave(SGXLKL_EXIT_SYSCALL, slot)` -/
  | leave (next : Option HostRequest)
  /-- `submitsc` of a synchronous call -/
  | submit (next : Option HostRequest)
  /-- `while (sc->status != 2)` -/
  | spin (next : Option HostRequest)
  /-- Switched out, with `submitsc` as `yield_cb`. -/
  | yielded (next : Option HostRequest)
  /-- Submitted by the scheduler. -/
  | waiting (next : Option HostRequest)
  /-- `ret = sc->ret_val` -/
  | readRet (next : Option HostRequest)
  /-- `sc->status = 0; return ret` -/
  | clear (ret : Word) (next : Option HostRequest)

/-- What a scheduler runs: `switched` is the part of `_lthread_resume` behind the switch back
from the lthread that has left `yield_cb` to be called. -/
inductive SchedCur where
  | off
  | own
  | running (a : Nat)
  | switched (a : Nat)
  deriving DecidableEq

inductive Parked where
  | no
  | asleep
  | exited
  deriving DecidableEq

/-- How `lthread_run` fails on a slot from the return queue: `a_crash` in `slottolthread`, or
`_lthread_resume(NULL)`. -/
inductive Fault where
  | crash
  | null
  deriving DecidableEq

/-! ## The host -/

/-- Where `host_syscall_thread` is with the slot that it has dequeued. -/
inductive HostStage where
  /-- `handle_syscall(i)` -/
  | exec
  /-- `if (scall[i].status == 1)` -/
  | check
  /-- `__atomic_store_n(&scall[i].status, 2)` -/
  | store
  /-- `mpmc_enqueue(conf->returnq, i)` -/
  | push
  deriving DecidableEq

/-! ## The record of a request -/

/-- One execution by the host: the number and the arguments it found, and what it answered. -/
structure Execution where
  syscallno : Word
  args : List Word
  ret : Word
  deriving DecidableEq

structure CallRecord where
  caller : Caller
  req : HostRequest
  sync : Bool := false
  execs : List Execution := []
  pushes : Nat := 0
  resumes : Nat := 0

/-! ## The system -/

structure HostCallSys where
  /-- `always_sync`, `exit_on_host_calls`, `maxsyscalls` -/
  alwaysSync : Bool
  exitOnHostCalls : Bool
  maxsyscalls : Nat
  /-- `S` -/
  slots : Nat → SyscallT
  slotlthreads : Nat → Option Nat
  freeslots : Nat → Bool
  syscallQueue : List Nat
  returnQueue : List Nat
  hosts : Nat → Option (HostStage × Nat)
  schedulerQueue : List Nat
  cur : Nat → SchedCur
  /-- `sched->syscall` and `lt->syscall` -/
  syscall : Caller → Nat
  pc : Caller → CallPc
  created : Nat → Bool
  pinned : Nat → Bool
  parked : Nat → Parked
  fault : Option Fault
  record : Nat → CallRecord
  history : List (CallRecord × Word)

inductive HostCallLabel where
  /-- Scheduler `k` starts with `allocslot(NULL)`, which finds slot `i`. -/
  | start (k i : Nat)
  /-- `lthread_create`, with `allocslot(a)`, which finds slot `i`. -/
  | create (a i : Nat)
  /-- The lthread that `k` runs yields, sleeps or exits, or pins or unpins itself. -/
  | yield (k : Nat)
  | sleep (k : Nat)
  | exit (k : Nat)
  | pin (k : Nat) (b : Bool)
  | wake (a : Nat)
  /-- `_lthread_free`, with `freeslot`. -/
  | free (a : Nat)
  /-- `lthread_run` resumes the head of the scheduler queue, or of the return queue. -/
  | resume (k : Nat)
  | resumeSlot (k : Nat)
  /-- Whoever runs on `k` calls a wrapper; `grow` is the call that `arena_ensure` makes first. -/
  | call (k : Nat) (req : HostRequest) (grow : Option HostRequest)
  /-- The next step of the wrapper. -/
  | go (k : Nat)
  /-- The host executes the request of an enclave exit and enters again. -/
  | hostExit (k : Nat) (ret : Word)
  /-- `yield_cb` of the lthread that has switched back. -/
  | callback (k : Nat)
  | hostTake (h : Nat)
  | hostExec (h : Nat) (ret : Word)
  | hostCheck (h : Nat)
  | hostFinish (h : Nat)

namespace HostCallSys

def initial (alwaysSync exitOnHostCalls : Bool) (maxsyscalls : Nat) : HostCallSys where
  alwaysSync := alwaysSync
  exitOnHostCalls := exitOnHostCalls
  maxsyscalls := maxsyscalls
  slots := fun _ => ⟨[0, 0, 0, 0, 0, 0], 0, 0⟩
  slotlthreads := fun _ => none
  freeslots := fun _ => false
  syscallQueue := []
  returnQueue := []
  hosts := fun _ => none
  schedulerQueue := []
  cur := fun _ => .off
  syscall := fun _ => 0
  pc := fun _ => .idle
  created := fun _ => false
  pinned := fun _ => false
  parked := fun _ => .no
  fault := none
  record := fun _ => { caller := .sched 0, req := ⟨0, []⟩ }
  history := []

def caller (s : HostCallSys) (k : Nat) : Option Caller :=
  match s.cur k with
  | .own => some (.sched k)
  | .running a => some (.lthread a)
  | .off | .switched _ => none

def atWork (s : HostCallSys) (k : Nat) : Option Nat :=
  match s.cur k with
  | .running a =>
    match s.pc (.lthread a) with
    | .idle => some a
    | _ => none
  | _ => none

def inLoop (s : HostCallSys) (k : Nat) : Bool :=
  match s.cur k, s.pc (.sched k) with
  | .own, .idle => true
  | _, _ => false

def setPc (s : HostCallSys) (c : Caller) (pc : CallPc) : HostCallSys :=
  { s with pc := Function.update s.pc c pc }

def setSlot (s : HostCallSys) (i : Nat) (sc : SyscallT) : HostCallSys :=
  { s with slots := Function.update s.slots i sc }

def setRecord (s : HostCallSys) (i : Nat) (r : CallRecord) : HostCallSys :=
  { s with record := Function.update s.record i r }

def setCur (s : HostCallSys) (k : Nat) (cur : SchedCur) : HostCallSys :=
  { s with cur := Function.update s.cur k cur }

def setHost (s : HostCallSys) (h : Nat) (st : Option (HostStage × Nat)) : HostCallSys :=
  { s with hosts := Function.update s.hosts h st }

def handleSyscall (s : HostCallSys) (i : Nat) (ret : Word) : HostCallSys :=
  let sc := s.slots i
  let r := s.record i
  (s.setSlot i { sc with word := ret }).setRecord i
    { r with execs := r.execs ++ [⟨sc.word, sc.args, ret⟩] }

def async (s : HostCallSys) : Caller → Bool
  | .sched _ => false
  | .lthread a => !s.alwaysSync && !s.pinned a

def callStep (s : HostCallSys) (k : Nat) (c : Caller) : Option HostCallSys :=
  let i := s.syscall c
  match s.pc c with
  | .fill req next =>
    some (((s.setSlot i ((s.slots i).fill req)).setRecord i { caller := c, req := req }).setPc c
      (.switch next))
  | .switch next =>
    if s.async c then
      match c with
      | .lthread a => some ((s.setPc c (.yielded next)).setCur k (.switched a))
      | .sched _ => none
    else
      some (((s.setSlot i { s.slots i with status := 1 }).setRecord i
        { s.record i with sync := true }).setPc c
          (if s.exitOnHostCalls then .leave next else .submit next))
  | .submit next =>
    some ({ s with syscallQueue := s.syscallQueue ++ [i] }.setPc c (.spin next))
  | .spin next => if (s.slots i).status = 2 then some (s.setPc c (.readRet next)) else none
  | .readRet next => some (s.setPc c (.clear (s.slots i).word next))
  | .clear ret next =>
    some ({ s.setSlot i { s.slots i with status := 0 } with
      history := s.history ++ [(s.record i, ret)] }.setPc c
        (match next with
          | none => .idle
          | some req => .fill req none))
  | .idle | .leave _ | .yielded _ | .waiting _ => none

def slottolthread (s : HostCallSys) (i : Nat) : Except Fault Nat :=
  if i < s.maxsyscalls then
    match s.slotlthreads i with
    | some a => .ok a
    | none => .error .null
  else .error .crash

/-- `lthread_run` has got slot `i` from the return queue: `_lthread_resume(slottolthread(i))`.
The lthread goes on from where it was switched out. -/
def resumeFrom (s : HostCallSys) (k i : Nat) : HostCallSys :=
  match s.slottolthread i with
  | .error f => { s with fault := some f }
  | .ok a =>
    let s := (s.setCur k (.running a)).setRecord i
      { s.record i with resumes := (s.record i).resumes + 1 }
    match s.pc (.lthread a) with
    | .waiting next => s.setPc (.lthread a) (.readRet next)
    | _ => s

end HostCallSys

open HostCallSys in
def hostCallStep (s : HostCallSys) : HostCallLabel → Option HostCallSys
  | .start k i =>
    if s.cur k = .off ∧ i < s.maxsyscalls ∧ s.freeslots i = false then
      some { s.setCur k .own with
        syscall := Function.update s.syscall (.sched k) i
        freeslots := Function.update s.freeslots i true
        slotlthreads := Function.update s.slotlthreads i none }
    else none
  | .create a i =>
    if s.created a = false ∧ i < s.maxsyscalls ∧ s.freeslots i = false then
      some { s with
        created := Function.update s.created a true
        pinned := Function.update s.pinned a false
        syscall := Function.update s.syscall (.lthread a) i
        freeslots := Function.update s.freeslots i true
        slotlthreads := Function.update s.slotlthreads i (some a)
        schedulerQueue := s.schedulerQueue ++ [a] }
    else none
  | .yield k =>
    (s.atWork k).map fun a => { s.setCur k .own with schedulerQueue := s.schedulerQueue ++ [a] }
  | .sleep k =>
    (s.atWork k).map fun a =>
      { s.setCur k .own with parked := Function.update s.parked a .asleep }
  | .exit k =>
    (s.atWork k).map fun a =>
      { s.setCur k .own with parked := Function.update s.parked a .exited }
  | .pin k b => (s.atWork k).map fun a => { s with pinned := Function.update s.pinned a b }
  | .wake a =>
    if s.parked a = .asleep then
      some { s with
        parked := Function.update s.parked a .no
        schedulerQueue := s.schedulerQueue ++ [a] }
    else none
  | .free a =>
    if s.parked a = .exited then
      some { s with
        parked := Function.update s.parked a .no
        created := Function.update s.created a false
        freeslots := Function.update s.freeslots (s.syscall (.lthread a)) false
        slotlthreads := Function.update s.slotlthreads (s.syscall (.lthread a)) none }
    else none
  | .resume k =>
    if s.inLoop k then
      match s.schedulerQueue with
      | [] => none
      | a :: rest => some { s.setCur k (.running a) with schedulerQueue := rest }
    else none
  | .resumeSlot k =>
    if s.inLoop k then
      match s.returnQueue with
      | [] => none
      | i :: rest => some ({ s with returnQueue := rest }.resumeFrom k i)
    else none
  | .call k req grow =>
    (s.caller k).bind fun c =>
      match s.pc c with
      | .idle =>
        some (s.setPc c (match grow with
          | none => .fill req none
          | some g => .fill g (some req)))
      | _ => none
  | .go k => (s.caller k).bind (s.callStep k)
  | .hostExit k ret =>
    (s.caller k).bind fun c =>
      match s.pc c with
      | .leave next => some ((s.handleSyscall (s.syscall c) ret).setPc c (.readRet next))
      | _ => none
  | .callback k =>
    match s.cur k with
    | .switched a =>
      let s' := { s with syscallQueue := s.syscallQueue ++ [s.syscall (.lthread a)] }.setCur k .own
      match s.pc (.lthread a) with
      | .yielded next => some (s'.setPc (.lthread a) (.waiting next))
      | _ => some s'
    | _ => none
  | .hostTake h =>
    match s.hosts h, s.syscallQueue with
    | none, i :: rest => some ({ s with syscallQueue := rest }.setHost h (some (.exec, i)))
    | _, _ => none
  | .hostExec h ret =>
    match s.hosts h with
    | some (.exec, i) => some ((s.handleSyscall i ret).setHost h (some (.check, i)))
    | _ => none
  | .hostCheck h =>
    match s.hosts h with
    | some (.check, i) =>
      some (s.setHost h (some (if (s.slots i).status = 1 then .store else .push, i)))
    | _ => none
  | .hostFinish h =>
    match s.hosts h with
    | some (.store, i) =>
      some ((s.setSlot i { s.slots i with status := 2 }).setHost h none)
    | some (.push, i) =>
      some (({ s with returnQueue := s.returnQueue ++ [i] }.setRecord i
        { s.record i with pushes := (s.record i).pushes + 1 }).setHost h none)
    | _ => none

end RktIo.Host
