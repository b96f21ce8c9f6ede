import RktIo.Sched.FutexInv

/-!
# Futex timeouts

`__do_futex_sleep` stores a deadline and the clock it is meant for, `futex_tick` reads them.
Between the two a deadline of 0 stands for none, and the conditions of `futex_tick` are
assignments: the real time is never looked at, every deadline is compared with the monotonic
clock, and an entry that stays with a deadline gets the clock 0, which is `CLOCK_REALTIME`.
-/

namespace RktIo.Sched

open Walk List

/-! ## Waits -/

def Timespec.usec (ts : Timespec) : Int := ts.sec * 1000000 + ts.nsec.tdiv 1000

/-- A call that waits: the caller, the arguments, what `clock_gettime` returned, and the futex the
waiter was moved to since, if it was. -/
structure WaitCall where
  lt : Lt
  args : FutexArgs
  time : Timespec
  movedTo : Option (BitVec 64)
  deriving DecidableEq

namespace WaitCall

def entry (w : WaitCall) : Option FutexQ :=
  (futexPrelude w.args w.time).bind (fun f =>
    (futexSwitch [] 0 (fun _ => w.args.val) w.lt f 0).queues.head?.map (fun fq =>
      (w.movedTo.map fq.rekey).getD fq))

def realtime (w : WaitCall) : Bool := decide (w.args.op &&& FUTEX_CLOCK_REALTIME ≠ 0)

def deadline (w : WaitCall) : Option Int :=
  if w.args.timeout = 0 then none
  else some ((if w.args.futexOp = .wait then w.time.usec else 0) + w.args.timespec.usec)

def current (w : WaitCall) (currUsecReal currUsecMntc : BitVec 64) : Int :=
  if w.realtime then currUsecReal.toNat else currUsecMntc.toNat

def due (w : WaitCall) (currUsecReal currUsecMntc : BitVec 64) : Bool :=
  match w.deadline with
  | none => false
  | some deadline => decide (deadline ≤ w.current currUsecReal currUsecMntc)

/-- The times are such that `futex_tick` does the right thing to this waiter: its deadline, as the
code stores it, is not 0 and has passed on the monotonic clock exactly if it has passed on the
clock that was asked for, and that is the real-time clock if it has not. -/
def TimeoutOk (w : WaitCall) (currUsecReal currUsecMntc : BitVec 64) : Prop :=
  ∀ deadline, w.deadline = some deadline →
    ((BitVec.ofInt 64 deadline ≠ 0 ∧ BitVec.ofInt 64 deadline ≤ currUsecMntc)
      ↔ deadline ≤ w.current currUsecReal currUsecMntc)
    ∧ (w.current currUsecReal currUsecMntc < deadline → BitVec.ofInt 64 deadline ≠ 0 →
      w.realtime = true)

end WaitCall

/-! ## What is stored -/

theorem realtime_and_private (op : BitVec 32) :
    op &&& ~~~FUTEX_PRIVATE &&& FUTEX_CLOCK_REALTIME = op &&& FUTEX_CLOCK_REALTIME := by
  rw [BitVec.and_assoc]
  congr 1

theorem futexOp_eq_wait_iff {a : FutexArgs} :
    a.futexOp = .wait ↔ a.op &&& ~~~FUTEX_PRIVATE &&& ~~~FUTEX_CLOCK_REALTIME = FUTEX_WAIT := by
  unfold FutexArgs.futexOp FutexOp.ofInt
  constructor
  · intro h
    split_ifs at h
    assumption
  · intro h
    simp [h, FUTEX_WAIT, FUTEX_WAIT_BITSET]

theorem futexPrelude_eq_some {a : FutexArgs} {time : Timespec} {f : Frame}
    (h : futexPrelude a time = some f) :
    f.args = a
      ∧ f.clock = (if a.op &&& FUTEX_CLOCK_REALTIME ≠ 0 then CLOCK_REALTIME else CLOCK_MONOTONIC)
      ∧ f.now = if a.futexOp = .wait then time else ⟨0, 0⟩ := by
  simp only [futexPrelude, realtime_and_private] at h
  split at h
  · cases h
  · cases h
    simp only [futexOp_eq_wait_iff, and_self]

theorem timespecToUsec_add (now ts : Timespec) :
    timespecToUsec now + timespecToUsec ts = BitVec.ofInt 64 (now.usec + ts.usec) :=
  (BitVec.ofInt_add ..).symm

/-- **What `futex_wait` stores** for a timeout. -/
structure WaitCall.Stored (w : WaitCall) (fq : FutexQ) : Prop where
  owner : fq.owner = w.lt
  futexLt : fq.futexLt = some w.lt
  deadline : fq.futexDeadline = (w.deadline.map (BitVec.ofInt 64)).getD 0
  clock : w.deadline ≠ none →
    fq.clock = if w.realtime then CLOCK_REALTIME else CLOCK_MONOTONIC

variable {w : WaitCall} {fq : FutexQ}

theorem WaitCall.stored_futexWait {f : Frame} {bitset : BitVec 32}
    (hf : futexPrelude w.args w.time = some f)
    (h : (futexWait [] 0 (fun _ => w.args.val) w.lt f bitset).queues.head? = some fq) :
    w.Stored fq := by
  obtain ⟨hargs, hclock, hnow⟩ := futexPrelude_eq_some hf
  simp only [futexWait, hargs, if_true, head?_cons, Option.some.injEq] at h
  by_cases htimeout : w.args.timeout = 0
  · -- no timeout: the entry keeps what `__futex_wait_new` put there
    have hnone : w.deadline = none := if_pos htimeout
    simp only [htimeout, ne_eq, not_true_eq_false, if_false] at h
    subst h
    exact ⟨rfl, rfl, by rw [hnone]; rfl, fun hne => absurd hnone hne⟩
  · simp only [htimeout, ne_eq, not_false_eq_true, if_true] at h
    subst h
    refine ⟨rfl, rfl, ?_, fun _ => ?_⟩
    · show timespecToUsec f.now + timespecToUsec w.args.timespec = _
      rw [timespecToUsec_add, WaitCall.deadline, if_neg htimeout, hnow]
      by_cases hwait : w.args.futexOp = .wait
      · simp [hwait]
      · simp [hwait, Timespec.usec]
    · show f.clock = _
      rw [hclock]
      simp only [WaitCall.realtime, decide_eq_true_eq]

theorem WaitCall.Stored.rekey (h : w.Stored fq)
    (movedTo : Option (BitVec 64)) : w.Stored ((movedTo.map fq.rekey).getD fq) := by
  cases movedTo with
  | none => exact h
  | some uaddr => exact ⟨h.owner, h.futexLt, h.deadline, h.clock⟩

theorem WaitCall.stored (h : w.entry = some fq) : w.Stored fq := by
  unfold WaitCall.entry at h
  obtain ⟨f, hf, h⟩ := Option.bind_eq_some_iff.mp h
  obtain ⟨fq₀, hhead, rfl⟩ := Option.map_eq_some_iff.mp h
  apply WaitCall.Stored.rekey
  have hargs := (futexPrelude_eq_some hf).1
  -- only the waits queue an entry
  unfold futexSwitch at hhead
  simp only [hargs] at hhead
  cases hop : w.args.futexOp with
  | waitBitset =>
    simp only [hop] at hhead
    split at hhead
    · cases hhead
    · exact stored_futexWait hf hhead
  | wait =>
    simp only [hop] at hhead
    exact stored_futexWait hf hhead
  | wakeBitset =>
    simp only [hop] at hhead
    split at hhead <;> cases hhead
  | wake =>
    simp only [hop] at hhead
    cases hhead
  | cmpRequeue =>
    simp only [hop] at hhead
    split at hhead <;> cases hhead
  | requeue =>
    simp only [hop] at hhead
    cases hhead
  | invalid =>
    simp only [hop] at hhead
    cases hhead

/-! ## One entry -/

def FutexQ.ticked (currUsecReal currUsecMntc : BitVec 64) (fq : FutexQ) : Option FutexQ :=
  (futexTickBody currUsecReal currUsecMntc fq ()).1

theorem futexTickBody_eq (real mntc : BitVec 64) (fq : FutexQ) (u : Unit) :
    futexTickBody real mntc fq u = (fq.ticked real mntc, u) := rfl

theorem ticked_eq (real mntc : BitVec 64) (fq : FutexQ) :
    fq.ticked real mntc = if fq.futexDeadline = 0 then some fq
      else if fq.futexDeadline ≤ mntc then none else some { fq with clock := CLOCK_REALTIME } := by
  unfold FutexQ.ticked futexTickBody
  by_cases hzero : fq.futexDeadline = 0#64
  · simp [hzero]
  · by_cases hle : fq.futexDeadline ≤ mntc
    · simp [hzero, hle, CLOCK_REALTIME, CLOCK_MONOTONIC]
    · simp [hzero, hle, CLOCK_REALTIME]

theorem FutexQ.clock_update_eq_iff {clock : Nat} :
    { fq with clock := clock } = fq ↔ fq.clock = clock := by
  constructor
  · intro h
    exact (congrArg FutexQ.clock h).symm
  · rintro rfl
    rfl

/-- **One entry.** The loop body unlinks it exactly if it is due and leaves it as it is otherwise,
if and only if the times are as `TimeoutOk` says. -/
theorem ticked_eq_iff (hstored : w.Stored fq) (real mntc : BitVec 64) :
    fq.ticked real mntc = (if w.due real mntc then none else some fq) ↔ w.TimeoutOk real mntc := by
  have hstore := hstored.deadline
  rw [ticked_eq]
  unfold WaitCall.TimeoutOk WaitCall.due
  cases hd : w.deadline with
  | none =>
    rw [hd] at hstore
    simp [show fq.futexDeadline = 0#64 from hstore]
  | some deadline =>
    rw [hd, Option.map_some, Option.getD_some] at hstore
    have hclock := hstored.clock (by rw [hd]; simp)
    have hreset : { fq with clock := CLOCK_REALTIME } = fq ↔ w.realtime = true := by
      rw [FutexQ.clock_update_eq_iff, hclock]
      cases w.realtime <;> simp [CLOCK_REALTIME, CLOCK_MONOTONIC]
    simp only [decide_eq_true_eq, Option.some.injEq, forall_eq', ← hstore]
    by_cases hdue : deadline ≤ w.current real mntc
    · -- due: the entry has to go, which takes a stored deadline on the monotonic clock
      rw [if_pos hdue]
      by_cases hzero : fq.futexDeadline = 0#64
      · simp [hzero, hdue]
      · by_cases hle : fq.futexDeadline ≤ mntc
        · simp [hzero, hle, hdue]
        · simp [hzero, hle, hdue]
    · -- not due: the entry has to stay with its clock
      rw [if_neg hdue]
      have hlt : w.current real mntc < deadline := by omega
      by_cases hzero : fq.futexDeadline = 0#64
      · simp [hzero, hdue]
      · by_cases hle : fq.futexDeadline ≤ mntc
        · simp [hzero, hle, hdue]
        · simp [hzero, hle, hdue, hlt, hreset]

/-! ## A whole tick -/

def tickRun (s : FutexSys) (k : Nat) (currUsecReal currUsecMntc : BitVec 64) : Option FutexSys :=
  ((futexStep s (.tickTry k currUsecReal currUsecMntc)).bind
    (fun s => futexStep s (.tickLoop k))).bind (fun s => futexStep s (.tickUnlock k))

/-- **What a tick is for.** The waiters that are due are taken out of the queue and marked, the
entries of the others stay as they are. -/
structure TickRight (ws : List WaitCall) (currUsecReal currUsecMntc : BitVec 64)
    (s s' : FutexSys) : Prop where
  queues : s'.queues
    = (ws.filter (fun w => !w.due currUsecReal currUsecMntc)).filterMap WaitCall.entry
  marked : ∀ w ∈ ws, w.due currUsecReal currUsecMntc = true →
    (s'.lts w.lt).err = FUTEX_EXPIRED
  unmarked : ∀ t, (∀ w ∈ ws, w.due currUsecReal currUsecMntc = true → w.lt ≠ t) →
    (s'.lts t).err = (s.lts t).err

theorem futexTick_eq (queues : List FutexQ) (real mntc : BitVec 64) :
    futexTick queues real mntc
      = ⟨queues.filterMap (FutexQ.ticked real mntc),
        queues.filter (fun fq => (fq.ticked real mntc).isNone), ()⟩ :=
  walk_filterMap (futexTickBody_eq real mntc) queues ()

theorem tickRun_eq {s : FutexSys} {k : Nat} (hseen : (s.ticks k).pc = .seen) (hlock : s.lock = none)
    (hnamed : ∀ fq ∈ s.queues, fq.futexLt = some fq.owner) (real mntc : BitVec 64) :
    ∃ s', tickRun s k real mntc = some s'
      ∧ s'.queues = s.queues.filterMap (FutexQ.ticked real mntc)
      ∧ s'.lts = handOver .tick
        ((s.queues.filter (fun fq => (fq.ticked real mntc).isNone)).map FutexQ.owner) s.lts := by
  have hlts : futexLts (s.queues.filter (fun fq => (fq.ticked real mntc).isNone))
      = some ((s.queues.filter (fun fq => (fq.ticked real mntc).isNone)).map FutexQ.owner) := by
    apply futexLts_eq
    intro e he
    obtain ⟨fq, hfq, rfl⟩ := mem_map.mp he
    exact hnamed fq (mem_filter.mp hfq).1
  simp only [tickRun, futexStep, hseen, hlock, if_true, FutexSys.setTick, Option.bind_some,
    Function.update_self, futexTick_eq, FutexSys.leave, hlts, Option.map_some]
  exact ⟨_, rfl, rfl, rfl⟩

structure QueueOf (ws : List WaitCall) (queues : List FutexQ) : Prop where
  waits : ∀ w ∈ ws, w.entry.isSome = true
  distinct : (ws.map WaitCall.lt).Nodup
  eq : queues = ws.filterMap WaitCall.entry

variable {ws : List WaitCall} {queues : List FutexQ}

section

variable (h : QueueOf ws queues)

include h

theorem QueueOf.owners : queues.map FutexQ.owner = ws.map WaitCall.lt := by
  obtain ⟨hwaits, -, rfl⟩ := h
  induction ws with
  | nil => rfl
  | cons w ws ih =>
    obtain ⟨fq, hfq⟩ := Option.isSome_iff_exists.mp (hwaits w mem_cons_self)
    rw [filterMap_cons_some hfq, map_cons, map_cons, (WaitCall.stored hfq).owner,
      ih (fun w' hw' => hwaits w' (mem_cons_of_mem w hw'))]

theorem QueueOf.named : ∀ fq ∈ queues, fq.futexLt = some fq.owner := by
  intro fq hfq
  rw [h.eq] at hfq
  obtain ⟨w, -, hentry⟩ := mem_filterMap.mp hfq
  rw [(WaitCall.stored hentry).futexLt, (WaitCall.stored hentry).owner]

theorem QueueOf.ticked_iff (real mntc : BitVec 64) :
    queues.filterMap (FutexQ.ticked real mntc)
        = (ws.filter (fun w => !w.due real mntc)).filterMap WaitCall.entry
      ↔ ∀ w ∈ ws, w.TimeoutOk real mntc := by
  have hkept : queues.filterMap (FutexQ.ticked real mntc)
      = ws.filterMap (fun w => w.entry.bind (FutexQ.ticked real mntc)) := by
    rw [h.eq, filterMap_filterMap]
  have hright : (ws.filter (fun w => !w.due real mntc)).filterMap WaitCall.entry
      = ws.filterMap (fun w => if w.due real mntc then none else w.entry) := by
    rw [filterMap_filter]
    congr 1
    funext w
    cases w.due real mntc <;> rfl
  have howner : ∀ (w : WaitCall) (fq' : FutexQ),
      w.entry.bind (FutexQ.ticked real mntc) = some fq' → fq'.owner = w.lt := by
    intro w fq' hfq'
    obtain ⟨fq, hfq, hticked⟩ := Option.bind_eq_some_iff.mp hfq'
    have hbody : futexTickBody real mntc fq () = (some fq', ()) := Prod.ext hticked rfl
    have hident := futexTickBody_ident hbody
    exact (congrArg Prod.fst hident).trans (WaitCall.stored hfq).owner
  have howner' : ∀ (w : WaitCall) (fq : FutexQ),
      (if w.due real mntc then none else w.entry) = some fq → fq.owner = w.lt := by
    intro w fq hfq
    split_ifs at hfq
    exact (WaitCall.stored hfq).owner
  rw [hkept, hright, filterMap_eq_iff FutexQ.owner WaitCall.lt howner howner' h.distinct]
  refine forall₂_congr (fun w hw => ?_)
  obtain ⟨fq, hfq⟩ := Option.isSome_iff_exists.mp (h.waits w hw)
  rw [hfq, Option.bind_some]
  exact ticked_eq_iff (WaitCall.stored hfq) real mntc

theorem QueueOf.mem_unlinked {real mntc : BitVec 64} (hok : ∀ w ∈ ws, w.TimeoutOk real mntc)
    (t : Lt) :
    t ∈ (queues.filter (fun fq => (fq.ticked real mntc).isNone)).map FutexQ.owner
      ↔ ∃ w ∈ ws, w.due real mntc = true ∧ w.lt = t := by
  have hnone : ∀ w ∈ ws, ∀ fq, w.entry = some fq →
      ((fq.ticked real mntc).isNone = true ↔ w.due real mntc = true) := by
    intro w hw fq hfq
    rw [(ticked_eq_iff (WaitCall.stored hfq) real mntc).mpr (hok w hw)]
    cases w.due real mntc <;> simp
  constructor
  · intro ht
    obtain ⟨fq, hmem, rfl⟩ := mem_map.mp ht
    obtain ⟨hqueue, hgone⟩ := mem_filter.mp hmem
    rw [h.eq] at hqueue
    obtain ⟨w, hw, hfq⟩ := mem_filterMap.mp hqueue
    exact ⟨w, hw, (hnone w hw fq hfq).mp hgone, (WaitCall.stored hfq).owner.symm⟩
  · rintro ⟨w, hw, hdue, rfl⟩
    obtain ⟨fq, hfq⟩ := Option.isSome_iff_exists.mp (h.waits w hw)
    have hqueue : fq ∈ queues := by
      rw [h.eq]
      exact mem_filterMap.mpr ⟨w, hw, hfq⟩
    have hgone := (hnone w hw fq hfq).mpr hdue
    rw [← (WaitCall.stored hfq).owner]
    exact mem_map_of_mem (mem_filter.mpr ⟨hqueue, hgone⟩)

end

/-- **Futex timeouts follow the requested clock exactly if the monotonic clock agrees with it.**
For every queue of waiters and all times, a `futex_tick` that obtains the lock treats the waiters
as it should exactly if for each of them the times are as `TimeoutOk` says. -/
theorem futex_tick_follows_clocks_iff (ws : List WaitCall) (s : FutexSys)
    (hqueue : QueueOf ws s.queues) (k : Nat) (hseen : (s.ticks k).pc = .seen)
    (hlock : s.lock = none) (currUsecReal currUsecMntc : BitVec 64) :
    ∃ s', tickRun s k currUsecReal currUsecMntc = some s'
      ∧ (TickRight ws currUsecReal currUsecMntc s s'
        ↔ ∀ w ∈ ws, w.TimeoutOk currUsecReal currUsecMntc) := by
  obtain ⟨s', hrun, hqueues, hlts⟩ :=
    tickRun_eq hseen hlock hqueue.named currUsecReal currUsecMntc
  refine ⟨s', hrun, ?_, ?_⟩
  · intro hright
    exact (hqueue.ticked_iff currUsecReal currUsecMntc).mp (hqueues.symm.trans hright.queues)
  · intro hok
    have hnodup : ((s.queues.filter
        (fun fq => (fq.ticked currUsecReal currUsecMntc).isNone)).map FutexQ.owner).Nodup := by
      have hsub := (List.filter_sublist (p := fun fq : FutexQ =>
        (fq.ticked currUsecReal currUsecMntc).isNone) (l := s.queues)).map FutexQ.owner
      exact hsub.nodup (hqueue.owners ▸ hqueue.distinct)
    refine ⟨hqueues.trans ((hqueue.ticked_iff currUsecReal currUsecMntc).mpr hok), ?_, ?_⟩
    · intro w hw hdue
      rw [hlts, handOver_of_mem _ _ _ hnodup
        ((hqueue.mem_unlinked hok w.lt).mpr ⟨w, hw, hdue, rfl⟩)]
      rfl
    · intro t hnot
      rw [hlts, handOver_of_notMem]
      intro hmem
      obtain ⟨w, hw, hdue, hlt⟩ := (hqueue.mem_unlinked hok t).mp hmem
      exact hnot w hw hdue hlt

/-! ## Examples -/

def sleepersIn (ws : List WaitCall) : FutexSys where
  queues := ws.filterMap WaitCall.entry
  sleepers := ws.length
  lock := none
  init := false
  word := fun _ => 0
  schedQueue := []
  lts := fun _ => ⟨.asleep, FUTEX_NONE, false, none, []⟩
  ticks := fun _ => ⟨.seen, 0, 0⟩

def waitFor (lt : Lt) (op : BitVec 32) (timeout : BitVec 64) (ts : Timespec) : WaitCall where
  lt := lt
  args := ⟨0x1000, op, 0, timeout, ts, 0, FUTEX_BITSET_MATCH_ANY⟩
  time := ⟨0, 0⟩
  movedTo := none

def agreeingWaits : List WaitCall :=
  [waitFor 1 FUTEX_WAIT 0 ⟨0, 0⟩,
    waitFor 2 (FUTEX_WAIT_BITSET ||| FUTEX_CLOCK_REALTIME) 1 ⟨5, 0⟩]

theorem futex_tick_follows_clocks_iff_agreeing :
    ∃ s', tickRun (sleepersIn agreeingWaits) 0 6000000 7000000 = some s'
      ∧ TickRight agreeingWaits 6000000 7000000 (sleepersIn agreeingWaits) s' := by
  have hqueue : QueueOf agreeingWaits (sleepersIn agreeingWaits).queues :=
    ⟨by decide, by decide, rfl⟩
  obtain ⟨s', hrun, hiff⟩ := futex_tick_follows_clocks_iff agreeingWaits
    (sleepersIn agreeingWaits) hqueue 0 rfl rfl 6000000 7000000
  refine ⟨s', hrun, hiff.mpr ?_⟩
  intro w hw deadline hdeadline
  simp only [agreeingWaits, List.mem_cons, List.not_mem_nil, or_false] at hw
  rcases hw with rfl | rfl
  · cases hdeadline
  · cases hdeadline
    exact ⟨by decide, by decide⟩

/-- **The wrong clock.** A deadline that has passed on the requested real-time clock is missed
because the monotonic clock is behind, an absolute timeout of 0 never expires, and a waiter on the
monotonic clock whose deadline has not passed is turned into one on the real-time clock. -/
theorem realtime_deadline_missed :
    let missed := waitFor 1 (FUTEX_WAIT_BITSET ||| FUTEX_CLOCK_REALTIME) 1 ⟨5, 0⟩
    let zero := waitFor 1 FUTEX_WAIT_BITSET 1 ⟨0, 0⟩
    let early := waitFor 1 FUTEX_WAIT 1 ⟨5, 0⟩
    (∃ s', tickRun (sleepersIn [missed]) 0 6000000 1000000 = some s'
      ∧ s'.queues.length = 1 ∧ missed.due 6000000 1000000 = true
      ∧ ¬ TickRight [missed] 6000000 1000000 (sleepersIn [missed]) s')
    ∧ (∃ s', tickRun (sleepersIn [zero]) 0 6000000 1000000 = some s'
      ∧ s'.queues.length = 1 ∧ zero.due 6000000 1000000 = true
      ∧ ¬ TickRight [zero] 6000000 1000000 (sleepersIn [zero]) s')
    ∧ ∃ s', tickRun (sleepersIn [early]) 0 6000000 1000000 = some s'
      ∧ s'.queues.map FutexQ.clock = [CLOCK_REALTIME]
      ∧ ¬ TickRight [early] 6000000 1000000 (sleepersIn [early]) s' := by
  have hnamed {w : WaitCall} : ∀ fq ∈ (sleepersIn [w]).queues, fq.futexLt = some fq.owner := by
    intro fq hfq
    obtain ⟨w, -, hentry⟩ := List.mem_filterMap.mp hfq
    rw [(WaitCall.stored hentry).futexLt, (WaitCall.stored hentry).owner]
  refine ⟨?_, ?_, ?_⟩
  · obtain ⟨s', hrun, hqueues, -⟩ := tickRun_eq (k := 0) rfl rfl hnamed 6000000 1000000
    refine ⟨s', hrun, by rw [hqueues]; decide, by decide, ?_⟩
    intro hright
    exact absurd (hqueues.symm.trans hright.queues) (by decide)
  · obtain ⟨s', hrun, hqueues, -⟩ := tickRun_eq (k := 0) rfl rfl hnamed 6000000 1000000
    refine ⟨s', hrun, by rw [hqueues]; decide, by decide, ?_⟩
    intro hright
    exact absurd (hqueues.symm.trans hright.queues) (by decide)
  · obtain ⟨s', hrun, hqueues, -⟩ := tickRun_eq (k := 0) rfl rfl hnamed 6000000 1000000
    refine ⟨s', hrun, by rw [hqueues]; decide, ?_⟩
    intro hright
    exact absurd (hqueues.symm.trans hright.queues) (by decide)

end RktIo.Sched
