import RktIo.Host.SlotTable
import RktIo.Sched.Specific
import RktIo.Sched.StateWord

/-!
# The life of an lthread (`lthread_create`, `_lthread_free`)

What `lthread_create` acquires and what `_lthread_free` gives back, as the calls that the two make
of the libraries and of the host interface, in order. An lthread is freed by the lthread that joins
it or, if it is detached, by the scheduler in `_lthread_resume`.
-/

namespace RktIo.Sched.Lifetime

open Walk List

/-! ## Freeing -/

structure RobustMutex where
  addr : Nat
  type : BitVec 32
  lock : BitVec 32
  waiters : BitVec 32
  deriving Repr, DecidableEq

/-- The fields of `struct lthread` that creating and freeing it are about. -/
structure Lthread where
  ptr : Nat
  state : LtState
  stack : Nat
  stackSize : Nat
  itls : Nat
  itlssz : Nat
  tid : BitVec 32
  func : Nat
  arg : Nat
  funcname : String
  syscall : Nat
  ltJoin : Option Nat
  tls : List TlsSlot
  cancelbuf : List (Nat × Nat)
  robustList : List RobustMutex
  deriving Repr, DecidableEq

inductive LtCall where
  | calloc (p : Nat)
  | free (p : Nat)
  | mmap (addr size : Nat)
  | munmap (addr size : Nat)
  | cleanup (f x : Nat)
  | tls (c : TlsCall)
  | ownerDied (mutex : Nat) (lock : BitVec 32)
  | wake (mutex : Nat) (priv : BitVec 32)
  | orphanStdio
  | freeslot (slot : Nat)
  | arenaNew (size : Nat)
  | arenaDestroy
  | enqueue (lt : Nat)
  deriving Repr, DecidableEq

def releaseRobust (tid : BitVec 32) (m : RobustMutex) : List LtCall :=
  .ownerDied m.addr (tid ||| 0x40000000)
    :: if m.lock.toInt < 0 ∨ m.waiters ≠ 0 then [.wake m.addr ((m.type &&& 128) ^^^ 128)] else []

def unmap (addr size : Nat) : List LtCall := if addr ≠ 0 then [LtCall.munmap addr size] else []

def Lthread.cleanup (lt : Lthread) : List LtCall :=
  lt.cancelbuf.map (fun c => LtCall.cleanup c.1 c.2)

def Lthread.release (lt : Lthread) : List LtCall :=
  unmap lt.itls lt.itlssz ++ (lt.robustList.flatMap (releaseRobust lt.tid)
    ++ (LtCall.orphanStdio :: (unmap lt.stack lt.stackSize ++ [LtCall.freeslot lt.syscall])))

def lthreadFree (keys : List TlsDestructor) (self : Option Nat) (lt : Lthread) : List LtCall :=
  lt.cleanup
    ++ (if self.isSome then (lthreadRundestructors keys lt.tls).map LtCall.tls else [])
    ++ lt.release ++ [LtCall.free lt.ptr]

structure LthreadSched where
  currentLthread : Option Nat
  deriving Repr, DecidableEq

/-- `_lthread_resume(lt)` as far as it is about the end of an lthread; `ran` is the lthread when it
switches back to the scheduler. -/
def lthreadResume (keys : List TlsDestructor) (sched : LthreadSched) (lt ran : Lthread) :
    LthreadSched × List LtCall :=
  if lt.state.test .cancelled then
    (sched, (lt.ltJoin.map LtCall.enqueue).toList
      ++ if lt.state.test .detach then lthreadFree keys sched.currentLthread lt else [])
  else
    let sched := { sched with currentLthread := some lt.ptr }
    -- the lthread runs
    let sched := { sched with currentLthread := none }
    if ran.state.test .exited then
      (sched, LtCall.arenaDestroy :: (ran.ltJoin.map LtCall.enqueue).toList
        ++ if ran.state.test .detach then lthreadFree keys sched.currentLthread ran else [])
    else (sched, [])

def schedAfter (keys : List TlsDestructor) (sched : LthreadSched) :
    List (Lthread × Lthread) → LthreadSched
  | [] => sched
  | r :: rs => schedAfter keys (lthreadResume keys sched r.1 r.2).1 rs

variable {keys : List TlsDestructor}

theorem lthreadResume_current {sched : LthreadSched}
    (h : sched.currentLthread = none) (lt ran : Lthread) :
    (lthreadResume keys sched lt ran).1.currentLthread = none := by
  unfold lthreadResume
  split
  · exact h
  · split <;> rfl

/-- **Between two lthreads a scheduler has no current lthread.** Induction on the lthreads. -/
theorem schedAfter_current (keys : List TlsDestructor) (rs : List (Lthread × Lthread)) :
    ∀ sched : LthreadSched, sched.currentLthread = none →
      (schedAfter keys sched rs).currentLthread = none := by
  induction rs with
  | nil => intro sched h; exact h
  | cons r rs ih => intro sched h; exact ih _ (lthreadResume_current h r.1 r.2)

/-! ## Thread-specific data -/

/-- How an lthread ends: another lthread joins it, or a scheduler frees it after it has resumed
others. -/
inductive Ending where
  | joined (joiner : Nat)
  | resumed (earlier : List (Lthread × Lthread)) (lt : Lthread)
  deriving Repr, DecidableEq

def Ending.isJoined : Ending → Bool
  | .joined _ => true
  | .resumed _ _ => false

def Ending.Ends (lt : Lthread) : Ending → Prop
  | .joined _ => True
  | .resumed _ before => lt.state.test .detach = true
    ∧ ((before.state.test .cancelled = true ∧ before = lt)
      ∨ (before.state.test .cancelled = false ∧ lt.state.test .exited = true))

def Ending.calls (keys : List TlsDestructor) (lt : Lthread) : Ending → List LtCall
  | .joined joiner => lthreadFree keys (some joiner) lt
  | .resumed earlier before =>
    (lthreadResume keys (schedAfter keys ⟨none⟩ earlier) before lt).2

def LtCall.destructor? : LtCall → Option (Nat × Nat)
  | .tls c => c.destructor?
  | _ => none

/-- **What the destructors are for**: before the memory of the lthread is released, the calls that
are due are made, each once and no others, and every slot is freed. -/
def DestructorsRight (keys : List TlsDestructor) (values : Key → Nat) (lt : Lthread)
    (calls : List LtCall) : Prop :=
  ∃ before, calls = before ++ [.free lt.ptr]
    ∧ (before.filterMap LtCall.destructor?).Perm (dueCalls keys values)
    ∧ ∀ d ∈ lt.tls, .tls (.free d) ∈ before

def LtCall.isTls : LtCall → Bool
  | .tls _ => true
  | _ => false

theorem releaseRobust_isTls (tid : BitVec 32) (m : RobustMutex) :
    ∀ c ∈ releaseRobust tid m, c.isTls = false := by
  unfold releaseRobust
  split <;> simp [LtCall.isTls]

theorem unmap_isTls (addr size : Nat) : ∀ c ∈ unmap addr size, c.isTls = false := by
  unfold unmap
  split <;> simp [LtCall.isTls]

theorem Lthread.cleanup_isTls (lt : Lthread) : ∀ c ∈ lt.cleanup, c.isTls = false := by
  intro c hc
  obtain ⟨_, -, rfl⟩ := mem_map.mp hc
  rfl

theorem Lthread.release_isTls (lt : Lthread) : ∀ c ∈ lt.release, c.isTls = false := by
  intro c hc
  simp only [Lthread.release, mem_append, mem_flatMap, mem_cons, not_mem_nil,
    or_false] at hc
  rcases hc with hc | ⟨m, -, hc⟩ | rfl | hc | rfl
  · exact unmap_isTls _ _ c hc
  · exact releaseRobust_isTls lt.tid m c hc
  · rfl
  · exact unmap_isTls _ _ c hc
  · rfl

variable {calls : List LtCall}

theorem filterMap_destructor?_of_isTls (h : ∀ c ∈ calls, c.isTls = false) :
    calls.filterMap LtCall.destructor? = [] := by
  rw [filterMap_eq_nil_iff]
  intro c hc
  have hnot := h c hc
  cases c with
  | tls t => cases hnot
  | _ => rfl

theorem filterMap_destructor?_map_tls (calls : List TlsCall) :
    (calls.map LtCall.tls).filterMap LtCall.destructor?
      = calls.filterMap TlsCall.destructor? := by
  rw [filterMap_map]
  rfl

variable {lt : Lthread}

theorem destructorsRight_of_self (hkeys : DistinctKeys keys)
    (htls : (lt.tls.map TlsSlot.key).Nodup) (self : Nat) :
    DestructorsRight keys (lthreadGetspecific lt.tls) lt (lthreadFree keys (some self) lt) := by
  refine ⟨_, rfl, ?_, ?_⟩
  · rw [filterMap_append, filterMap_append,
      filterMap_destructor?_of_isTls lt.cleanup_isTls,
      filterMap_destructor?_of_isTls lt.release_isTls, nil_append, append_nil]
    show (((lthreadRundestructors keys lt.tls).map LtCall.tls).filterMap _).Perm _
    rw [filterMap_destructor?_map_tls]
    exact rundestructors_calls hkeys htls
  · intro d hd
    apply mem_append_left
    apply mem_append_right
    exact mem_map_of_mem (free_mem_rundestructors keys hd)

theorem destructorsRight_none_iff (hcalls : ∀ c ∈ calls, c.isTls = false) :
    DestructorsRight keys (lthreadGetspecific lt.tls) lt (calls ++ lthreadFree keys none lt)
      ↔ lt.tls = [] := by
  have hbefore : ∀ c ∈ calls ++ (lt.cleanup ++ lt.release), c.isTls = false := by
    intro c hc
    rcases mem_append.mp hc with hc | hc
    · exact hcalls c hc
    · rcases mem_append.mp hc with hc | hc
      · exact lt.cleanup_isTls c hc
      · exact lt.release_isTls c hc
  have heq : calls ++ lthreadFree keys none lt
      = (calls ++ (lt.cleanup ++ lt.release)) ++ [LtCall.free lt.ptr] := by
    simp [lthreadFree]
  rw [heq]
  constructor
  · rintro ⟨before, happend, -, hfree⟩
    obtain ⟨rfl, -⟩ := append_inj' happend rfl
    rw [eq_nil_iff_forall_not_mem]
    intro d hd
    cases hbefore _ (hfree d hd)
  · intro hnil
    refine ⟨_, rfl, ?_, ?_⟩
    · have hnone : dueCalls keys (lthreadGetspecific lt.tls) = [] := by
        rw [dueCalls, filterMap_eq_nil_iff]
        intro d _
        exact if_neg (fun h => h.1 (by rw [hnil]; rfl))
      rw [filterMap_destructor?_of_isTls hbefore, hnone]
    · intro d hd
      rw [hnil] at hd
      cases hd

theorem Ending.calls_resumed (keys : List TlsDestructor) {before : Lthread}
    {earlier : List (Lthread × Lthread)} (h : (Ending.resumed earlier before).Ends lt) :
    ∃ calls : List LtCall, (∀ c ∈ calls, c.isTls = false)
      ∧ (Ending.resumed earlier before).calls keys lt = calls ++ lthreadFree keys none lt := by
  have hcurrent := schedAfter_current keys earlier ⟨none⟩ rfl
  have hjoin (lt : Lthread) : ∀ c ∈ (lt.ltJoin.map LtCall.enqueue).toList, c.isTls = false := by
    intro c hc
    cases hl : lt.ltJoin <;> simp [hl] at hc
    rw [hc]
    rfl
  obtain ⟨hdetach, ⟨hcancelled, rfl⟩ | ⟨hcancelled, hexited⟩⟩ := h
  · refine ⟨_, hjoin before, ?_⟩
    simp only [Ending.calls, lthreadResume, hcancelled, hdetach, if_true, hcurrent]
  · refine ⟨.arenaDestroy :: (lt.ltJoin.map .enqueue).toList,
      forall_mem_cons.mpr ⟨rfl, hjoin lt⟩, ?_⟩
    simp [Ending.calls, lthreadResume, hcancelled, hdetach, hexited]

/-- **The destructors run if and only if the lthread is joined** or has no thread-specific data:
for every table of keys, every sequence of calls of `lthread_setspecific` and every ending. -/
theorem destructors_run_iff (keys : List TlsDestructor) (hkeys : DistinctKeys keys)
    (calls : List SetCall) (lt : Lthread) (htls : lt.tls = setAll [] calls) (e : Ending)
    (hends : e.Ends lt) :
    DestructorsRight keys (assigned [] (fun _ => 0) calls) lt (e.calls keys lt)
      ↔ e.isJoined = true ∨ lt.tls = [] := by
  obtain ⟨hvalues, hnodup⟩ := setAll_getspecific calls []
  have hvalues' : assigned [] (fun _ => 0) calls = lthreadGetspecific lt.tls := by
    rw [htls, hvalues]
    rfl
  have hnodup' : (lt.tls.map TlsSlot.key).Nodup := by
    rw [htls]
    exact hnodup List.nodup_nil
  rw [hvalues']
  cases e with
  | joined joiner => exact iff_of_true (destructorsRight_of_self hkeys hnodup' joiner) (Or.inl rfl)
  | resumed earlier before =>
    obtain ⟨first, hfirst, heq⟩ := Ending.calls_resumed keys hends
    rw [heq, destructorsRight_none_iff hfirst]
    simp [Ending.isJoined]

def lthreadWithValue (state : LtState) : Lthread where
  ptr := 0x5000
  state := state
  stack := 0x10000
  stackSize := 0x8000
  itls := 0
  itlssz := 0
  tid := 1
  func := 0x400
  arg := 0
  funcname := ""
  syscall := 2
  ltJoin := none
  tls := [⟨0, 0x42⟩]
  cancelbuf := []
  robustList := []

theorem destructors_run_iff_joined :
    DestructorsRight [⟨0, 0x100⟩] (assigned [] (fun _ => 0) [⟨0, 0x42, true⟩])
      (lthreadWithValue 0) ((Ending.joined 0x6000).calls [⟨0, 0x100⟩] (lthreadWithValue 0)) :=
  (destructors_run_iff [⟨0, 0x100⟩] (List.nodup_singleton _) [⟨0, 0x42, true⟩] (lthreadWithValue 0)
    rfl (.joined 0x6000) trivial).mpr (Or.inl rfl)

/-- **A detached lthread exits without its destructor**, and its slot is never freed. -/
theorem detached_destructors_skipped :
    let lt := lthreadWithValue (LtSt.exited.bit ||| LtSt.detach.bit)
    let e := Ending.resumed [] (lthreadWithValue 0)
    e.Ends lt
      ∧ dueCalls [⟨0, 0x100⟩] (assigned [] (fun _ => 0) [⟨0, 0x42, true⟩]) = [(0x100, 0x42)]
      ∧ (e.calls [⟨0, 0x100⟩] lt).filterMap LtCall.destructor? = []
      ∧ ¬ DestructorsRight [⟨0, 0x100⟩] (assigned [] (fun _ => 0) [⟨0, 0x42, true⟩]) lt
        (e.calls [⟨0, 0x100⟩] lt) := by
  refine ⟨⟨by decide, Or.inr ⟨by decide, by decide⟩⟩, by decide, by decide, ?_⟩
  rintro ⟨before, heq, -, hfree⟩
  have hmem := List.mem_append_left [LtCall.free 0x5000] (hfree ⟨0, 0x42⟩ (by decide))
  rw [show [LtCall.free 0x5000] = [LtCall.free (lthreadWithValue
    (LtSt.exited.bit ||| LtSt.detach.bit)).ptr] from rfl, ← heq] at hmem
  exact absurd hmem (by decide)

/-! ## Creating -/

/-- `struct lthread_attr` as the caller fills it in; `NULL` is 0. -/
structure LthreadAttr where
  stackSize : Nat
  state : LtState
  stack : Nat
  deriving Repr, DecidableEq

structure Process where
  slots : Host.SlotTable Nat
  spawnedLthreads : BitVec 32
  threadsMinus1 : BitVec 32
  threaded : Bool
  fileLocks : List (BitVec 32)
  tlsSize : Nat
  schedStackSize : Nat
  queue : List Nat

/-- What the libraries return: `calloc`, the two calls of `mmap` (`none` is `MAP_FAILED`),
`__init_utp` and `errno`. -/
structure CreateEnv where
  calloc : Nat
  mapStack : Option Nat
  mapTls : Option Nat
  initUtp : Int
  errno : Int
  deriving Repr, DecidableEq

structure Created where
  rc : Int
  proc : Process
  lthread : Option Lthread
  calls : List LtCall

def Process.startThreads (p : Process) : Process :=
  if !p.threaded && decide (0 ≤ p.threadsMinus1.toInt) then
    { p with
      fileLocks := p.fileLocks.map (fun l => if l.toInt < 0 then 0 else l)
      threaded := true }
  else p

def Process.fail (p : Process) (env : CreateEnv) (calls : List LtCall) : Option Created :=
  some ⟨env.errno, p, none, calls⟩

def Process.spawn (p : Process) (attrp : Option LthreadAttr) (self : Option Lthread)
    (func arg ptr stack stackSize itls : Nat) (calls : List LtCall) : Option Created :=
  (Host.allocslot p.slots ptr).map (fun (slot, slots) =>
    let lt : Lthread :=
      { ptr := ptr
        state := LtSt.new.bit ||| ((attrp.map LthreadAttr.state).getD 0)
        stack := stack
        stackSize := stackSize
        itls := itls
        itlssz := p.tlsSize
        tid := p.spawnedLthreads
        func := func
        arg := arg
        funcname := (self.map Lthread.funcname).getD ""
        syscall := slot
        ltJoin := none
        tls := []
        cancelbuf := []
        robustList := [] }
    { rc := 0
      proc := { p with
        slots := slots
        spawnedLthreads := p.spawnedLthreads + 1
        threadsMinus1 := p.threadsMinus1 + 1
        queue := p.queue ++ [ptr] }
      lthread := some lt
      calls := calls ++ [LtCall.arenaNew 4096, LtCall.enqueue ptr] })

def callerStack (attrp : Option LthreadAttr) : Nat := (attrp.map LthreadAttr.stack).getD 0

def lthreadCreate (p : Process) (attrp : Option LthreadAttr) (self : Option Lthread)
    (func arg : Nat) (env : CreateEnv) : Option Created :=
  let p := p.startThreads
  let size := (attrp.map LthreadAttr.stackSize).getD 0
  let stackSize := if size ≠ 0 then size else p.schedStackSize
  let lt := env.calloc
  if lt = 0 then p.fail env []
  else
    let calls := [LtCall.calloc lt]
    let mapped : Option (Nat × List LtCall) :=
      if callerStack attrp ≠ 0 then some (callerStack attrp, calls)
      else env.mapStack.map (fun stack => (stack, calls ++ [LtCall.mmap stack stackSize]))
    match mapped with
    | none => p.fail env (calls ++ [LtCall.free lt])
    | some (stack, calls) =>
      if p.tlsSize = 0 then p.spawn attrp self func arg lt stack stackSize 0 calls
      else
        match env.mapTls with
        | none => p.fail env (calls ++ [LtCall.free lt])
        | some itls =>
          let calls := calls ++ [LtCall.mmap itls p.tlsSize]
          if env.initUtp ≠ 0 then
            p.fail env (calls ++ [LtCall.munmap stack stackSize, LtCall.free lt])
          else p.spawn attrp self func arg lt stack stackSize itls calls

/-! ## Neutral failures -/

def LtCall.mapped? : LtCall → Option (Nat × Nat)
  | .mmap addr size => some (addr, size)
  | _ => none

def LtCall.unmapped? : LtCall → Option (Nat × Nat)
  | .munmap addr size => some (addr, size)
  | _ => none

def LtCall.allocated? : LtCall → Option Nat
  | .calloc p => some p
  | _ => none

def LtCall.freed? : LtCall → Option Nat
  | .free p => some p
  | _ => none

structure CreateNeutral (p : Process) (attrp : Option LthreadAttr) (r : Created) : Prop where
  mappings : (r.calls.filterMap LtCall.mapped?).Perm (r.calls.filterMap LtCall.unmapped?)
  blocks : (r.calls.filterMap LtCall.allocated?).Perm (r.calls.filterMap LtCall.freed?)
  callers : callerStack attrp ≠ 0 → ∀ size, LtCall.munmap (callerStack attrp) size ∉ r.calls
  slots : r.proc.slots = p.slots
  spawned : r.proc.spawnedLthreads = p.spawnedLthreads
  threads : r.proc.threadsMinus1 = p.threadsMinus1

/-- **What a creation owes its caller**: if it fails it is neutral, and when an lthread on a stack
of the caller is freed later, the stack is not unmapped. -/
structure CreateRight (p : Process) (attrp : Option LthreadAttr) (o : Option Created) : Prop where
  failed : ∀ r, o = some r → r.lthread = none → CreateNeutral p attrp r
  freed : ∀ r lt, o = some r → r.lthread = some lt → callerStack attrp ≠ 0 →
    ∀ later : Lthread, later.stack = lt.stack → later.stackSize = lt.stackSize →
      later.itls = lt.itls → later.itlssz = lt.itlssz →
      ∀ keys self size, LtCall.munmap (callerStack attrp) size ∉ lthreadFree keys self later

/-- Where a creation does what it should: when it fails before it has acquired anything but its own
memory, when it fails to map the TLS image for a stack of the caller, and when it succeeds on a
stack of its own. -/
def CreateOk (p : Process) (attrp : Option LthreadAttr) (env : CreateEnv) : Prop :=
  if env.calloc = 0 then True
  else if callerStack attrp = 0 ∧ env.mapStack = none then True
  else if p.tlsSize ≠ 0 ∧ env.mapTls = none then callerStack attrp ≠ 0
  else if p.tlsSize ≠ 0 ∧ env.initUtp ≠ 0 then False
  -- `allocslot` crashes when all slots are in use
  else callerStack attrp = 0 ∨ p.slots.maxsyscalls ≤ p.slots.nthreads

section Create

variable {p p' : Process} {attrp : Option LthreadAttr} {self : Option Lthread} {env : CreateEnv}

@[simp] theorem Process.startThreads_slots (p : Process) : p.startThreads.slots = p.slots := by
  unfold Process.startThreads
  split <;> rfl

@[simp] theorem Process.startThreads_spawned (p : Process) :
    p.startThreads.spawnedLthreads = p.spawnedLthreads := by
  unfold Process.startThreads
  split <;> rfl

@[simp] theorem Process.startThreads_threads (p : Process) :
    p.startThreads.threadsMinus1 = p.threadsMinus1 := by
  unfold Process.startThreads
  split <;> rfl

@[simp] theorem Process.startThreads_tlsSize (p : Process) :
    p.startThreads.tlsSize = p.tlsSize := by
  unfold Process.startThreads
  split <;> rfl

theorem createRight_fail_iff :
    CreateRight p attrp (p.startThreads.fail env calls)
      ↔ (calls.filterMap LtCall.mapped?).Perm (calls.filterMap LtCall.unmapped?)
        ∧ (calls.filterMap LtCall.allocated?).Perm (calls.filterMap LtCall.freed?)
        ∧ (callerStack attrp ≠ 0 → ∀ size, LtCall.munmap (callerStack attrp) size ∉ calls) := by
  constructor
  · intro h
    have hneutral := h.failed _ rfl rfl
    exact ⟨hneutral.mappings, hneutral.blocks, hneutral.callers⟩
  · rintro ⟨hmappings, hblocks, hcallers⟩
    refine ⟨?_, ?_⟩
    · intro r hr _
      cases hr
      exact ⟨hmappings, hblocks, hcallers, by simp, by simp, by simp⟩
    · intro r lt hr hlt
      cases hr
      cases hlt

theorem createRight_undone (p : Process) (attrp : Option LthreadAttr) (env : CreateEnv) (lt : Nat) :
    CreateRight p attrp (p.startThreads.fail env [.calloc lt, .free lt]) :=
  createRight_fail_iff.mpr ⟨.refl _, .refl _, by simp⟩

theorem not_createRight_of_length
    (h : (calls.filterMap LtCall.mapped?).length ≠ (calls.filterMap LtCall.unmapped?).length) :
    ¬ CreateRight p attrp (p.startThreads.fail env calls) :=
  fun hright => h (createRight_fail_iff.mp hright).1.length_eq

theorem munmap_stack_mem_free (keys : List TlsDestructor) (self : Option Nat) (lt : Lthread)
    (h : lt.stack ≠ 0) : LtCall.munmap lt.stack lt.stackSize ∈ lthreadFree keys self lt := by
  have hunmap : LtCall.munmap lt.stack lt.stackSize ∈ unmap lt.stack lt.stackSize := by
    rw [unmap, if_pos h]
    exact mem_singleton_self _
  simp [lthreadFree, Lthread.release, hunmap]

theorem createRight_spawn_iff {func arg ptr stack stackSize itls : Nat}
    (hslots : p'.slots = p.slots) (hstack : callerStack attrp ≠ 0 → stack = callerStack attrp) :
    CreateRight p attrp (p'.spawn attrp self func arg ptr stack stackSize itls calls)
      ↔ callerStack attrp = 0 ∨ p.slots.maxsyscalls ≤ p.slots.nthreads := by
  by_cases hfull : p.slots.maxsyscalls ≤ p.slots.nthreads
  · have hnone : p'.spawn attrp self func arg ptr stack stackSize itls calls = none := by
      simp [Process.spawn, Host.allocslot, hslots, hfull]
    rw [hnone]
    exact iff_of_true ⟨nofun, nofun⟩ (Or.inr hfull)
  · have hsome : ∃ r lt, p'.spawn attrp self func arg ptr stack stackSize itls calls = some r
        ∧ r.lthread = some lt ∧ lt.stack = stack := by
      obtain ⟨x, hx⟩ : ∃ x, Host.allocslot p'.slots ptr = some x := by
        unfold Host.allocslot
        rw [hslots, if_neg (by omega)]
        simp only
        split <;> exact ⟨_, rfl⟩
      simp only [Process.spawn, hx, Option.map_some]
      exact ⟨_, _, rfl, rfl, rfl⟩
    obtain ⟨r, lt, hspawn, hlt, hltstack⟩ := hsome
    rw [hspawn]
    constructor
    · intro h
      left
      by_contra hne
      have hmem := munmap_stack_mem_free [] none lt (by rw [hltstack, hstack hne]; exact hne)
      rw [hltstack, hstack hne] at hmem
      exact h.freed r lt rfl hlt hne lt rfl rfl rfl rfl [] none _ hmem
    · rintro (hnull | hfull')
      · refine ⟨?_, ?_⟩
        · rintro _ ⟨⟩ hnone
          rw [hlt] at hnone
          cases hnone
        · intro _ _ _ _ hne
          exact absurd hnull hne
      · exact absurd hfull' hfull

/-- **A creation is neutral when it fails, and its stack is left alone, exactly if** it fails before
it has mapped anything, or maps the TLS image in vain for a stack of the caller, or succeeds on a
stack of its own. -/
theorem create_neutral_iff (p : Process) (attrp : Option LthreadAttr) (self : Option Lthread)
    (func arg : Nat) (env : CreateEnv) :
    CreateRight p attrp (lthreadCreate p attrp self func arg env) ↔ CreateOk p attrp env := by
  unfold lthreadCreate CreateOk
  simp only [Process.startThreads_tlsSize]
  by_cases hcalloc : env.calloc = 0
  · simp [hcalloc, createRight_fail_iff]
  by_cases hcaller : callerStack attrp = 0
  · -- a stack of its own
    cases hstack : env.mapStack with
    | none =>
      simp only [hcalloc, hcaller, ne_eq, not_true_eq_false, if_false, Option.map_none, and_self,
        if_true, iff_true]
      exact createRight_undone p attrp env env.calloc
    | some stack =>
      by_cases htls : p.tlsSize = 0
      · simp [hcalloc, hcaller, htls, createRight_spawn_iff]
      · cases hitls : env.mapTls with
        | none =>
          -- the stack is not unmapped
          refine iff_of_false ?_ (by simp [hcalloc, hcaller, htls])
          simp only [hcalloc, hcaller, htls, ne_eq, not_true_eq_false, if_false, Option.map_some]
          exact not_createRight_of_length (by simp [List.filterMap, LtCall.mapped?, LtCall.unmapped?])
        | some itls =>
          by_cases hutp : env.initUtp = 0
          · simp [hcalloc, hcaller, htls, hutp, createRight_spawn_iff]
          · -- the TLS image is not unmapped
            refine iff_of_false ?_ (by simp [hcalloc, htls, hutp])
            simp only [hcalloc, hcaller, htls, hutp, ne_eq, not_true_eq_false, not_false_eq_true,
              if_false, if_true, Option.map_some]
            exact not_createRight_of_length (by simp [List.filterMap, LtCall.mapped?, LtCall.unmapped?])
  · -- the caller's stack
    by_cases htls : p.tlsSize = 0
    · simp [hcalloc, hcaller, htls, createRight_spawn_iff]
    · cases hitls : env.mapTls with
      | none =>
        refine iff_of_true ?_ (by simp [hcalloc, hcaller, htls])
        simp only [hcalloc, hcaller, htls, ne_eq, not_false_eq_true, if_false, if_true]
        exact createRight_undone p attrp env env.calloc
      | some itls =>
        by_cases hutp : env.initUtp = 0
        · simp [hcalloc, hcaller, htls, hutp, createRight_spawn_iff]
        · -- the caller's stack is unmapped
          refine iff_of_false ?_ (by simp [hcalloc, hcaller, htls, hutp])
          simp only [hcalloc, hcaller, htls, hutp, ne_eq, not_false_eq_true, if_false, if_true]
          intro h
          exact (createRight_fail_iff.mp h).2.2 hcaller _
            (List.mem_append_right _ List.mem_cons_self)

end Create

def processWithTls : Process where
  slots := .init 4 (fun _ => 0) (fun _ => none)
  spawnedLthreads := 1
  threadsMinus1 := 0
  threaded := true
  fileLocks := []
  tlsSize := 4096
  schedStackSize := 0x8000
  queue := []

def callersStack : LthreadAttr := ⟨0x4000, 0, 0x20000⟩

/-- **Three failures.** Without memory for the TLS image the new stack is leaked. If the TLS image
cannot be initialised, the caller's stack is unmapped and the image leaked. And an lthread on the
caller's stack unmaps it when it is freed. -/
theorem create_leaks_and_unmaps :
    let noTls : CreateEnv := ⟨0x5000, some 0x10000, none, 0, 12⟩
    let noUtp : CreateEnv := ⟨0x5000, none, some 0x30000, -1, 22⟩
    let works : CreateEnv := ⟨0x5000, none, some 0x30000, 0, 0⟩
    ((lthreadCreate processWithTls none none 0x400 0 noTls).map Created.calls
        = some [.calloc 0x5000, .mmap 0x10000 0x8000, .free 0x5000]
      ∧ ¬ CreateRight processWithTls none (lthreadCreate processWithTls none none 0x400 0 noTls))
    ∧ ((lthreadCreate processWithTls (some callersStack) none 0x400 0 noUtp).map Created.calls
        = some [.calloc 0x5000, .mmap 0x30000 4096, .munmap 0x20000 0x4000, .free 0x5000]
      ∧ ¬ CreateRight processWithTls (some callersStack)
        (lthreadCreate processWithTls (some callersStack) none 0x400 0 noUtp))
    ∧ ∃ r lt, lthreadCreate processWithTls (some callersStack) none 0x400 0 works = some r
      ∧ r.lthread = some lt ∧ LtCall.munmap 0x20000 0x4000 ∈ lthreadFree [] none lt
      ∧ ¬ CreateRight processWithTls (some callersStack)
        (lthreadCreate processWithTls (some callersStack) none 0x400 0 works) := by
  refine ⟨⟨by decide, ?_⟩, ⟨by decide, ?_⟩, _, _, rfl, rfl, by decide, ?_⟩
  · intro h
    exact absurd (h.failed _ rfl rfl).mappings.length_eq (by decide)
  · intro h
    exact (h.failed _ rfl rfl).callers (by decide) 0x4000 (by decide)
  · intro h
    exact h.freed _ _ rfl rfl (by decide) _ rfl rfl rfl rfl [] none 0x4000 (by decide)

end RktIo.Sched.Lifetime
