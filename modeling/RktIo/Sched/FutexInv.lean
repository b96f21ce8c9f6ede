import RktIo.Sched.FutexSys

/-!
# The futex queue invariant

Seen from one lthread, the futex system is a small state machine: the lthread is in a
`Phase`, and a step of the system leaves it there or makes a `Phase.Move`. `View` is what
the system holds about one lthread — its fields, and whether it holds the lock, is linked in
`futex_queues` or is in the scheduler queue — and `Phase.view` says what that is in every
phase.
-/

namespace RktIo.Sched

open Walk Transition Function List

/-! ## Phases -/

def FutexArgs.isWait (a : FutexArgs) : Bool := a.futexOp = .wait || a.futexOp = .waitBitset

def CallRec.locked (a : FutexArgs) : CallRec := { args := a, acquires := 1 }

def CallRec.done (a : FutexArgs) (compared : Option (BitVec 32)) : CallRec :=
  { args := a, acquires := 1, compared := compared }

def CallRec.slept (a : FutexArgs) : CallRec :=
  { args := a, acquires := 1, sleeps := 1, compared := some a.val }

def CallRec.unlocked (a : FutexArgs) : CallRec := { CallRec.slept a with releases := 1 }

def CallRec.handed (a : FutexArgs) (w : Waker) : CallRec :=
  { CallRec.unlocked a with handedBy := [w] }

inductive Phase where
  | user (err : Int)
  | called (err : Int) (f : Frame)
  | locked (err : Int) (f : Frame)
  | unlocking (err : Int) (a : FutexArgs) (compared : Option (BitVec 32)) (rc : Int)
  /-- Registered and switched out; the scheduler has still to run the callback. -/
  | switching (err : Int) (a : FutexArgs)
  | asleep (err : Int) (a : FutexArgs)
  | handed (a : FutexArgs) (w : Waker)
  | resumed (a : FutexArgs) (w : Waker)

structure View where
  holds : Bool
  queued : Bool
  ready : Bool
  caller : Caller

def FutexSys.view (s : FutexSys) (t : Lt) : View where
  holds := s.lock = some (.caller t)
  queued := t ∈ s.queues.map FutexQ.owner
  ready := t ∈ s.schedQueue
  caller := s.lts t

variable {t : Lt} {k : Nat}

theorem FutexSys.view_congr {s s' : FutexSys}
    (hlock : s'.lock = some (.caller t) ↔ s.lock = some (.caller t))
    (hqueued : t ∈ s'.queues.map FutexQ.owner ↔ t ∈ s.queues.map FutexQ.owner)
    (hready : t ∈ s'.schedQueue ↔ t ∈ s.schedQueue) (hlts : s'.lts t = s.lts t) :
    s'.view t = s.view t := by
  unfold FutexSys.view
  rw [hlts, decide_eq_decide.mpr hlock, decide_eq_decide.mpr hqueued, decide_eq_decide.mpr hready]

def Phase.view (past : List CallRec) : Phase → View
  | .user err => ⟨false, false, false, ⟨.user, err, false, none, past⟩⟩
  | .called err f => ⟨false, false, false, ⟨.called f, err, false, some { args := f.args }, past⟩⟩
  | .locked err f => ⟨true, false, false, ⟨.locked f, err, false, some (.locked f.args), past⟩⟩
  | .unlocking err a compared rc =>
    ⟨true, false, false, ⟨.unlocking rc, err, false, some (.done a compared), past⟩⟩
  | .switching err a => ⟨true, true, false, ⟨.asleep, err, true, some (.slept a), past⟩⟩
  | .asleep err a => ⟨false, true, false, ⟨.asleep, err, false, some (.unlocked a), past⟩⟩
  | .handed a w => ⟨false, false, true, ⟨.asleep, w.err, false, some (.handed a w), past⟩⟩
  | .resumed a w => ⟨false, false, false, ⟨.resumed, w.err, false, some (.handed a w), past⟩⟩

/-- A return value that is not that of a sleep: a wait that did not sleep returns neither 0
nor `-ETIMEDOUT`, and after a comparison it is `-EAGAIN`. -/
structure RcOk (a : FutexArgs) (compared : Option (BitVec 32)) (rc : Int) : Prop where
  wait : a.isWait = true → rc ≠ 0 ∧ rc ≠ -ETIMEDOUT
  mismatch : ∀ r, compared = some r → r ≠ a.val ∧ rc = -EAGAIN

structure CallRec.Finished (c : CallRec) : Prop where
  released : c.releases = c.acquires
  once : c.acquires ≤ 1
  handed : c.handedBy.length = c.sleeps
  timedOut : c.args.isWait = true → (c.rc = some (-ETIMEDOUT) ↔ c.handedBy = [.tick])
  woken : c.args.isWait = true → (c.rc = some 0 ↔ c.handedBy = [.wake])

inductive Phase.Move : Phase → List CallRec → Phase → List CallRec → Prop where
  | stay (p : Phase) (past : List CallRec) : Move p past p past
  | setErr (err err' : Int) (past : List CallRec) : Move (.user err) past (.user err') past
  | reject (err : Int) (past : List CallRec) (a : FutexArgs) :
      Move (.user err) past (.user err) (past ++ [{ args := a, rc := some (-ENOSYS) }])
  | call (err : Int) (past : List CallRec) (f : Frame) :
      Move (.user err) past (.called err f) past
  | acquire (err : Int) (past : List CallRec) (f : Frame) :
      Move (.called err f) past (.locked err f) past
  | done (err : Int) (past : List CallRec) (f : Frame) (compared : Option (BitVec 32)) (rc : Int)
      (h : RcOk f.args compared rc) :
      Move (.locked err f) past (.unlocking err f.args compared rc) past
  | sleep (err : Int) (past : List CallRec) (f : Frame) :
      Move (.locked err f) past (.switching err f.args) past
  | release (err : Int) (past : List CallRec) (a : FutexArgs) (compared : Option (BitVec 32))
      (rc : Int) :
      Move (.unlocking err a compared rc) past (.user err)
        (past ++ [{ CallRec.done a compared with releases := 1, rc := some rc }])
  | callback (err : Int) (past : List CallRec) (a : FutexArgs) :
      Move (.switching err a) past (.asleep err a) past
  | hand (err : Int) (past : List CallRec) (a : FutexArgs) (w : Waker) :
      Move (.asleep err a) past (.handed a w) past
  | resume (past : List CallRec) (a : FutexArgs) (w : Waker) :
      Move (.handed a w) past (.resumed a w) past
  | wakeRet (past : List CallRec) (a : FutexArgs) (w : Waker) :
      Move (.resumed a w) past (.user w.err)
        (past ++ [{ CallRec.handed a w with
          rc := some (if w.err = FUTEX_EXPIRED then -ETIMEDOUT else 0) }])

/-- What the moves keep: a pending return value is in order, and so is every finished
call. -/
structure Phase.Ok (p : Phase) (past : List CallRec) : Prop where
  rc : ∀ err a compared rc, p = .unlocking err a compared rc → RcOk a compared rc
  past : ∀ c ∈ past, c.Finished

theorem finished_reject (a : FutexArgs) :
    CallRec.Finished { args := a, rc := some (-ENOSYS) } where
  released := rfl
  once := by simp
  handed := rfl
  timedOut := by simp [ENOSYS, ETIMEDOUT]
  woken := by simp [ENOSYS]

theorem finished_release {a : FutexArgs} {compared : Option (BitVec 32)} {rc : Int}
    (h : RcOk a compared rc) :
    CallRec.Finished { CallRec.done a compared with releases := 1, rc := some rc } where
  released := rfl
  once := by simp [CallRec.done]
  handed := rfl
  timedOut := by
    intro hw
    simp [CallRec.done, (h.wait hw).2]
  woken := by
    intro hw
    simp [CallRec.done, (h.wait hw).1]

theorem finished_wakeRet (a : FutexArgs) (w : Waker) :
    CallRec.Finished { CallRec.handed a w with
      rc := some (if w.err = FUTEX_EXPIRED then -ETIMEDOUT else 0) } where
  released := rfl
  once := by simp [CallRec.handed, CallRec.unlocked, CallRec.slept]
  handed := rfl
  timedOut := by
    intro _
    cases w <;> simp [CallRec.handed, Waker.err, FUTEX_EXPIRED, FUTEX_NONE, ETIMEDOUT]
  woken := by
    intro _
    cases w <;> simp [CallRec.handed, Waker.err, FUTEX_EXPIRED, FUTEX_NONE, ETIMEDOUT]

/-- **One move keeps every finished call in order.** -/
theorem Phase.Move.ok {p p' : Phase} {past past' : List CallRec} (h : Move p past p' past')
    (hok : p.Ok past) : p'.Ok past' := by
  -- a new record at the end of `past` only has to be in order itself
  have hsnoc : ∀ {c : CallRec}, c.Finished → ∀ d ∈ past ++ [c], d.Finished := by
    intro c hc d hd
    rcases mem_append.mp hd with hd | hd
    · exact hok.past d hd
    · rw [mem_singleton.mp hd]
      exact hc
  cases h with
  | stay => exact hok
  | setErr => exact ⟨nofun, hok.past⟩
  | reject err _ a => exact ⟨nofun, hsnoc (finished_reject a)⟩
  | call | acquire => exact ⟨nofun, hok.past⟩
  | done err _ f compared rc hrc =>
    refine ⟨?_, hok.past⟩
    intro _ _ _ _ heq
    cases heq
    exact hrc
  | sleep => exact ⟨nofun, hok.past⟩
  | release err _ a compared rc => exact ⟨nofun, hsnoc (finished_release (hok.rc _ _ _ _ rfl))⟩
  | callback | hand | resume => exact ⟨nofun, hok.past⟩
  | wakeRet _ a w => exact ⟨nofun, hsnoc (finished_wakeRet a w)⟩

/-! ## The invariant -/

def TickPc.inside : TickPc → Bool
  | .idle | .seen => false
  | .locked _ _ | .unlocking => true

/-- Whether a scheduler holds the lock, and how often it took it more than it gave it
back. -/
structure Ticker.Ok (holds : Prop) (c : Ticker) : Prop where
  holds_iff : holds ↔ c.pc.inside = true
  balance : c.acquires = c.releases + c.pc.inside.toNat

/-- The queue is well formed: `futex_sleepers` counts it, every entry names its owner, and
nobody is in it or in the scheduler queue twice. -/
structure FutexSys.WellFormed (s : FutexSys) : Prop where
  init : s.init = false
  sleepers : s.sleepers = s.queues.length
  named : ∀ e ∈ s.queues.map FutexQ.ident, e.2 = some e.1
  nodup : (s.queues.map FutexQ.owner).Nodup
  readyNodup : s.schedQueue.Nodup
  ticks : ∀ k, (s.ticks k).Ok (s.lock = some (.tick k))

structure FutexSys.Inv (s : FutexSys) : Prop where
  wf : s.WellFormed
  views : ∀ t, ∃ p past, s.view t = Phase.view past p ∧ p.Ok past

def FutexSys.MovesLt (s s' : FutexSys) (t : Lt) : Prop :=
  ∃ p past p' past', s.view t = Phase.view past p ∧ s'.view t = Phase.view past' p'
    ∧ Phase.Move p past p' past' ∧ p.Ok past

structure FutexSys.StepOk (s s' : FutexSys) : Prop where
  wf : s'.WellFormed
  moves : ∀ t, s.MovesLt s' t

theorem FutexSys.StepOk.inv {s s' : FutexSys} (h : s.StepOk s') : s'.Inv := by
  refine ⟨h.wf, ?_⟩
  intro t
  obtain ⟨p, past, p', past', _, hv', hmove, hok⟩ := h.moves t
  exact ⟨p', past', hv', hmove.ok hok⟩

variable {s s' : FutexSys}

theorem FutexSys.Inv.stay (hs : s.Inv) (h : s'.view t = s.view t) : s.MovesLt s' t := by
  obtain ⟨p, past, hv, hok⟩ := hs.views t
  exact ⟨p, past, p, past, hv, h.trans hv, .stay p past, hok⟩

theorem FutexSys.Inv.moves_of_others (hs : s.Inv) (ht : s.MovesLt s' t)
    (hothers : ∀ u, u ≠ t → s'.view u = s.view u) : ∀ u, s.MovesLt s' u := by
  intro u
  by_cases hu : u = t
  · rw [hu]
    exact ht
  · exact hs.stay (hothers u hu)

theorem FutexSys.Inv.phase (hs : s.Inv) (t : Lt) : ∃ p past, s.view t = Phase.view past p
    ∧ p.Ok past ∧ s.lts t = (Phase.view past p).caller
    ∧ (s.lock = some (.caller t) ↔ (Phase.view past p).holds = true)
    ∧ (t ∈ s.queues.map FutexQ.owner ↔ (Phase.view past p).queued = true)
    ∧ (t ∈ s.schedQueue ↔ (Phase.view past p).ready = true) := by
  obtain ⟨p, past, hv, hok⟩ := hs.views t
  refine ⟨p, past, hv, hok, ?_, ?_, ?_, ?_⟩
  · rw [← hv]
    rfl
  all_goals rw [← hv]; simp [FutexSys.view]

/-! ## Handing over -/

theorem handOver_of_notMem (w : Waker) (ts : List Lt) :
    ∀ (cs : Lt → Caller) {u : Lt}, u ∉ ts → handOver w ts cs u = cs u := by
  induction ts with
  | nil => intro cs u _; rfl
  | cons t ts ih =>
    intro cs u hu
    obtain ⟨hne, hu⟩ := not_or.mp (mt mem_cons.mpr hu)
    rw [handOver, ih _ hu, update_of_ne hne]

theorem handOver_of_mem (w : Waker) (ts : List Lt) :
    ∀ (cs : Lt → Caller) {u : Lt}, ts.Nodup → u ∈ ts → handOver w ts cs u = (cs u).handed w := by
  induction ts with
  | nil => intro cs u _ hu; simp at hu
  | cons t ts ih =>
    intro cs u hnd hu
    obtain ⟨hnot, hnd⟩ := nodup_cons.mp hnd
    rw [handOver]
    rcases mem_cons.mp hu with rfl | hu
    · rw [handOver_of_notMem w ts _ hnot, update_self]
    · have hne : u ≠ t := fun h => hnot (h ▸ hu)
      rw [ih _ hnd hu, update_of_ne hne]

theorem FutexSys.leave_nil (s : FutexSys) (queues : List FutexQ) (sleepers : Int) (w : Waker) :
    s.leave queues sleepers [] w = some { s with queues := queues, sleepers := sleepers } := by
  simp [FutexSys.leave, futexLts, handOver]

theorem FutexSys.WellFormed.leave_eq (hs : s.WellFormed) {kept unlinked : List FutexQ}
    (hsplit : Splits s.queues kept unlinked) (sleepers : Int) (w : Waker) :
    s.leave kept sleepers unlinked w = some
      { s with
        queues := kept
        sleepers := sleepers
        schedQueue := s.schedQueue ++ unlinked.map FutexQ.owner
        lts := handOver w (unlinked.map FutexQ.owner) s.lts } := by
  unfold FutexSys.leave
  rw [futexLts_eq]
  · rfl
  · intro e he
    exact hs.named e (hsplit.perm.mem_iff.mp (mem_append.mpr (Or.inr he)))

theorem FutexSys.WellFormed.leave_view (hs : s.WellFormed) {kept unlinked : List FutexQ}
    {sleepers : Int} {w : Waker} (hsplit : Splits s.queues kept unlinked)
    (h : s.leave kept sleepers unlinked w = some s') (ht : t ∉ unlinked.map FutexQ.owner) :
    s'.view t = s.view t := by
  rw [hs.leave_eq hsplit] at h
  cases h
  refine FutexSys.view_congr Iff.rfl ?_ ?_ (handOver_of_notMem w _ s.lts ht)
  · rw [← hsplit.owners.mem_iff, mem_append, or_iff_left ht]
  · rw [mem_append, or_iff_left ht]

/-- **Unlinking.** Whoever walks the queue while no queued lthread holds the lock hands over
lthreads that are asleep. -/
theorem FutexSys.Inv.leave_ok (hs : s.Inv) {kept unlinked : List FutexQ} {w : Waker}
    (hsplit : Splits s.queues kept unlinked)
    (hlock : ∀ t ∈ s.queues.map FutexQ.owner, s.lock ≠ some (.caller t))
    (h : s.leave kept (s.sleepers - unlinked.length) unlinked w = some s') : s.StepOk s' := by
  obtain ⟨hinit, hsl, hnamed, hnd, hrnd, hticks⟩ := hs.wf
  have howners := hsplit.owners
  obtain ⟨hndk, hndu, hdisj⟩ := nodup_append.mp (howners.nodup_iff.mpr hnd)
  have hqueued {t : Lt} (ht : t ∈ unlinked.map FutexQ.owner) : t ∈ s.queues.map FutexQ.owner :=
    howners.mem_iff.mp (mem_append.mpr (Or.inr ht))
  have hnotready {t : Lt} (ht : t ∈ unlinked.map FutexQ.owner) : t ∉ s.schedQueue := by
    obtain ⟨p, past, _, _, _, _, hq, hr⟩ := hs.phase t
    have hqt := hq.mp (hqueued ht)
    rw [hr]
    cases p <;> simp [Phase.view] at hqt ⊢
  have hview {t : Lt} := hs.wf.leave_view hsplit h (t := t)
  rw [hs.wf.leave_eq hsplit] at h
  cases h
  refine ⟨⟨hinit, ?_, ?_, hndk, ?_, hticks⟩, ?_⟩
  · have hlen := hsplit.length
    simp only [hsl]
    omega
  · intro e he
    exact hnamed e (hsplit.perm.mem_iff.mp (mem_append.mpr (Or.inl he)))
  · refine nodup_append.mpr ⟨hrnd, hndu, ?_⟩
    intro t ht u hu htu
    subst htu
    exact hnotready hu ht
  · intro t
    by_cases hu : t ∈ unlinked.map FutexQ.owner
    · obtain ⟨p, past, hv, hok, hlt, hh, hq, _⟩ := hs.phase t
      have hqt := hq.mp (hqueued hu)
      have hht : (Phase.view past p).holds ≠ true := fun h => hlock t (hqueued hu) (hh.mpr h)
      have hnk : t ∉ kept.map FutexQ.owner := fun hk => hdisj t hk t hu rfl
      cases p with
      | asleep err a =>
        refine ⟨_, past, .handed a w, past, hv, ?_, .hand err past a w, hok⟩
        simp only [FutexSys.view, handOver_of_mem w _ s.lts hndu hu, hlt]
        simp only [Phase.view, hlock t (hqueued hu), hnk, decide_false, mem_append,
          hnotready hu, hu, false_or, decide_true, Caller.handed, Caller.note, Option.map_some]
        rfl
      | _ => simp [Phase.view] at hqt hht
    · exact hs.stay (hview hu)

/-! ## The critical section -/

/-- What a call does under the lock: nothing, with a return value; going to sleep; or
unlinking entries. -/
inductive SwitchResult (queues : List FutexQ) (sleepers : Int) (t : Lt) (f : Frame) :
    Section → Prop where
  | skip (compared : Option (BitVec 32)) (rc : Int) (h : RcOk f.args compared rc) :
      SwitchResult queues sleepers t f ⟨queues, sleepers, [], compared, .done rc⟩
  | sleep (fq : FutexQ) (h : fq.ident = (t, some t)) :
      SwitchResult queues sleepers t f
        ⟨fq :: queues, sleepers + 1, [], some f.args.val, .sleeps⟩
  | unlink (kept unlinked : List FutexQ) (rc : Int) (h : Splits queues kept unlinked)
      (hrc : RcOk f.args none rc) :
      SwitchResult queues sleepers t f
        ⟨kept, sleepers - unlinked.length, unlinked, none, .done rc⟩

theorem futexWait_result (queues : List FutexQ) (sleepers : Int) (word : BitVec 64 → BitVec 32)
    (t : Lt) (f : Frame) (bitset : BitVec 32) :
    SwitchResult queues sleepers t f (futexWait queues sleepers word t f bitset) := by
  unfold futexWait
  simp only
  split
  · rename_i heq
    rw [heq]
    refine .sleep _ ?_
    split <;> rfl
  · rename_i hne
    refine .skip _ _ ⟨?_, ?_⟩
    · simp [EAGAIN, ETIMEDOUT]
    · intro r hr
      cases hr
      exact ⟨hne, rfl⟩

theorem rcOk_of_not_wait {a : FutexArgs} (h : a.isWait = false) (rc : Int) : RcOk a none rc :=
  ⟨by simp [h], by simp⟩

theorem rcOk_error {a : FutexArgs} {rc : Int} (h : rc ≠ 0 ∧ rc ≠ -ETIMEDOUT) : RcOk a none rc :=
  ⟨fun _ => h, by simp⟩

theorem futexSwitch_result (queues : List FutexQ) (sleepers : Int)
    (word : BitVec 64 → BitVec 32) (t : Lt) (f : Frame) (junk : Int) :
    SwitchResult queues sleepers t f (futexSwitch queues sleepers word t f junk) := by
  have hnot {op : FutexOp} (hop : f.args.futexOp = op) (h : op ≠ .wait) (h' : op ≠ .waitBitset) :
      f.args.isWait = false := by simp [FutexArgs.isWait, hop, h, h']
  have hunlink {σ : Type} (r : Walked FutexQ σ) (w : Nat)
      (hsplit : Splits queues r.kept r.unlinked) (hnw : f.args.isWait = false) :
      SwitchResult queues sleepers t f (.unlink sleepers r w) :=
    .unlink _ _ _ hsplit (rcOk_of_not_wait hnw _)
  unfold futexSwitch
  simp only
  cases hop : f.args.futexOp with
  | waitBitset =>
    simp only
    split
    · exact .skip _ _ (rcOk_error (by simp [EINVAL, ETIMEDOUT]))
    · exact futexWait_result queues sleepers word t f _
  | wait => exact futexWait_result queues sleepers word t f _
  | wakeBitset =>
    have hnw := hnot hop nofun nofun
    simp only
    split
    · exact .skip _ _ (rcOk_of_not_wait hnw _)
    · exact hunlink _ _ (futexWake_splits ..) hnw
  | wake => exact hunlink _ _ (futexWake_splits ..) (hnot hop nofun nofun)
  | cmpRequeue =>
    have hnw := hnot hop nofun nofun
    simp only
    split
    · exact .skip _ _ (rcOk_of_not_wait hnw _)
    · exact hunlink _ _ (futexRequeue_splits ..) hnw
  | requeue => exact hunlink _ _ (futexRequeue_splits ..) (hnot hop nofun nofun)
  | invalid => exact .skip _ _ (rcOk_of_not_wait (hnot hop nofun nofun) _)

/-! ## Steps -/

theorem FutexSys.WellFormed.insert (hs : s.WellFormed) {fq : FutexQ} (hfq : fq.ident = (t, some t))
    (ht : t ∉ s.queues.map FutexQ.owner) (lts : Lt → Caller) :
    FutexSys.WellFormed
      { s with queues := fq :: s.queues, sleepers := s.sleepers + 1, lts := lts } := by
  obtain ⟨hinit, hsl, hnamed, hnd, hrnd, hticks⟩ := hs
  have howner : fq.owner = t := congrArg Prod.fst hfq
  refine ⟨hinit, ?_, ?_, ?_, hrnd, hticks⟩
  · simp [hsl]
  · intro e he
    rcases mem_cons.mp he with rfl | he
    · rw [hfq]
    · exact hnamed e he
  · rw [map_cons, howner]
    exact nodup_cons.mpr ⟨ht, hnd⟩

theorem FutexSys.WellFormed.set_lock (hs : s.WellFormed) {lock : Option Holder}
    (hold : ∀ k, s.lock ≠ some (.tick k)) (hnew : ∀ k, lock ≠ some (.tick k))
    (lts : Lt → Caller) : FutexSys.WellFormed { s with lock := lock, lts := lts } := by
  refine ⟨hs.init, hs.sleepers, hs.named, hs.nodup, hs.readyNodup, ?_⟩
  intro k
  obtain ⟨hiff, hbal⟩ := hs.ticks k
  exact ⟨(iff_of_false (hnew k) (hold k)).trans hiff, hbal⟩

theorem FutexSys.WellFormed.setLt (hs : s.WellFormed) (t : Lt) (c : Caller) :
    (s.setLt t c).WellFormed :=
  ⟨hs.init, hs.sleepers, hs.named, hs.nodup, hs.readyNodup, hs.ticks⟩

@[simp] theorem FutexSys.view_setLt_self (s : FutexSys) (t : Lt) (c : Caller) :
    (s.setLt t c).view t = { s.view t with caller := c } := by
  have hself : (s.setLt t c).lts t = c := update_self ..
  unfold FutexSys.view
  rw [hself]
  rfl

theorem FutexSys.view_setLt_of_ne (s : FutexSys) {u : Lt} (c : Caller) (h : u ≠ t) :
    (s.setLt t c).view u = s.view u := by
  have hother : (s.setLt t c).lts u = s.lts u := update_of_ne h ..
  unfold FutexSys.view
  rw [hother]
  rfl

section

variable (hs : s.Inv)

include hs

theorem FutexSys.Inv.setLt_ok {c : Caller} (ht : s.MovesLt (s.setLt t c) t) :
    s.StepOk (s.setLt t c) :=
  ⟨hs.wf.setLt t c, hs.moves_of_others ht (fun _ hu => s.view_setLt_of_ne c hu)⟩

theorem FutexSys.Inv.call_ok {args : FutexArgs} {time : Timespec}
    (h : futexStep s (.call t args time) = some s') : s.StepOk s' := by
  have hinit : ({ s with lock := if s.init then none else s.lock, init := false } : FutexSys) = s := by
    have := hs.wf.init
    cases s
    simp_all
  obtain ⟨p, past, hv, hok, hlt, hh, hq, hr⟩ := hs.phase t
  simp only [futexStep, hinit] at h
  cases p with
  | user err =>
    simp only [hlt, Phase.view, ne_eq, not_true_eq_false, if_false] at h
    split at h <;> cases h
    · refine hs.setLt_ok ⟨_, past, .user err, _, hv, ?_, .reject err past args, hok⟩
      rw [FutexSys.view_setLt_self, hv]
      rfl
    · rename_i f hf
      have hargs : f.args = args := by
        unfold futexPrelude at hf
        simp only at hf
        split at hf <;> cases hf
        rfl
      refine hs.setLt_ok ⟨_, past, .called err f, past, hv, ?_, .call err past f, hok⟩
      rw [FutexSys.view_setLt_self, hv, ← hargs]
      rfl
  | _ => simp [hlt, Phase.view] at h

theorem FutexSys.Inv.acquire_ok (h : futexStep s (.acquire t) = some s') : s.StepOk s' := by
  obtain ⟨p, past, hv, hok, hlt, hh, hq, hr⟩ := hs.phase t
  simp only [futexStep, hlt] at h
  cases p with
  | called err f =>
    simp only [Phase.view] at h
    split at h <;> cases h
    rename_i hfree
    rw [ne_eq, not_not] at hfree
    refine ⟨hs.wf.set_lock (by simp [hfree]) (by simp) _, hs.moves_of_others (t := t) ?_ ?_⟩
    · refine ⟨_, past, .locked err f, past, hv, ?_, .acquire err past f, hok⟩
      rw [FutexSys.view_setLt_self]
      simp only [FutexSys.view, hq, hr]
      rfl
    · intro u hu
      refine FutexSys.view_congr ?_ Iff.rfl Iff.rfl (update_of_ne hu ..)
      simp [FutexSys.setLt, hfree, Ne.symm hu]
  | _ => simp [Phase.view] at h

theorem FutexSys.Inv.switch_ok {junk : Int} (h : futexStep s (.switch t junk) = some s') :
    s.StepOk s' := by
  obtain ⟨p, past, hv, hok, hlt, hh, hq, hr⟩ := hs.phase t
  simp only [futexStep, hlt] at h
  cases p with
  | locked err f =>
    simp only [Phase.view] at h
    have hres := futexSwitch_result s.queues s.sleepers s.word t f junk
    generalize futexSwitch s.queues s.sleepers s.word t f junk = r at h hres
    -- behind the `switch` with a return value, before the unlinked lthreads are handed over
    have hdone (compared : Option (BitVec 32)) (rc : Int) (hrc : RcOk f.args compared rc) :
        s.StepOk (s.setLt t ⟨.unlocking rc, err, false, some (.done f.args compared), past⟩) := by
      refine hs.setLt_ok ⟨_, past, .unlocking err f.args compared rc, past, hv, ?_,
        .done err past f compared rc hrc, hok⟩
      rw [FutexSys.view_setLt_self, hv]
      rfl
    cases hres with
    | skip compared rc hrc =>
      rw [FutexSys.leave_nil] at h
      cases h
      exact hdone compared rc hrc
    | sleep fq hfq =>
      rw [FutexSys.leave_nil] at h
      cases h
      have howner : fq.owner = t := congrArg Prod.fst hfq
      have hlock : s.lock = some (.caller t) := hh.mpr rfl
      have hready : t ∉ s.schedQueue := fun h => by simpa [Phase.view] using hr.mp h
      refine ⟨hs.wf.insert hfq (fun h => by simpa [Phase.view] using hq.mp h) _,
        hs.moves_of_others (t := t) ?_ ?_⟩
      · refine ⟨_, past, .switching err f.args, past, hv, ?_, .sleep err past f, hok⟩
        simp only [FutexSys.view, FutexSys.setLt, update_self, hlock, hready,
          map_cons, howner, mem_cons, true_or, decide_true, decide_false]
        rfl
      · intro u hu
        refine FutexSys.view_congr Iff.rfl ?_ Iff.rfl (update_of_ne hu ..)
        simp only [map_cons, howner, mem_cons, hu, false_or]
    | unlink kept unlinked rc hsplit hrc =>
      have hfirst := hdone none rc hrc
      have hlock : s.lock = some (.caller t) := hh.mpr rfl
      have hnotq : t ∉ s.queues.map FutexQ.owner := fun h => by simpa [Phase.view] using hq.mp h
      have hleave := hfirst.inv.leave_ok hsplit (fun u hu heq => by
        rw [show s.lock = some (.caller u) from heq] at hlock
        cases hlock
        exact hnotq hu) h
      have hstays : t ∉ unlinked.map FutexQ.owner := fun hu =>
        hnotq (hsplit.owners.mem_iff.mp (mem_append.mpr (Or.inr hu)))
      refine ⟨hleave.wf, ?_⟩
      intro u
      by_cases hu : u = t
      · subst hu
        obtain ⟨p, past₁, p', past', hv₁, hv₂, hmove, hok₁⟩ := hfirst.moves u
        exact ⟨p, past₁, p', past', hv₁,
          (hfirst.wf.leave_view hsplit h hstays).trans hv₂, hmove, hok₁⟩
      · obtain ⟨p, past₁, p', past', hv₁, hv₂, hmove, hok₁⟩ := hleave.moves u
        exact ⟨p, past₁, p', past', (s.view_setLt_of_ne _ hu).symm.trans hv₁, hv₂, hmove, hok₁⟩
  | _ => simp [Phase.view] at h

theorem FutexSys.Inv.unlock_ok {c : Caller} (hlock : s.lock = some (.caller t))
    (ht : s.MovesLt ({ s with lock := none }.setLt t c) t) :
    s.StepOk ({ s with lock := none }.setLt t c) := by
  refine ⟨hs.wf.set_lock (by simp [hlock]) (by simp) _, hs.moves_of_others ht ?_⟩
  intro u hu
  refine FutexSys.view_congr ?_ Iff.rfl Iff.rfl (update_of_ne hu ..)
  simp [FutexSys.setLt, hlock, Ne.symm hu]

theorem FutexSys.Inv.release_ok (h : futexStep s (.release t) = some s') : s.StepOk s' := by
  obtain ⟨p, past, hv, hok, hlt, hh, hq, hr⟩ := hs.phase t
  simp only [futexStep, hlt] at h
  cases p with
  | unlocking err a compared rc =>
    cases h
    refine hs.unlock_ok (hh.mpr rfl) ⟨_, past, .user err, _, hv, ?_,
      .release err past a compared rc, hok⟩
    rw [FutexSys.view_setLt_self]
    simp only [FutexSys.view, hq, hr]
    rfl
  | _ => simp [Phase.view] at h

theorem FutexSys.Inv.callback_ok (h : futexStep s (.callback t) = some s') : s.StepOk s' := by
  obtain ⟨p, past, hv, hok, hlt, hh, hq, hr⟩ := hs.phase t
  simp only [futexStep, hlt] at h
  cases p with
  | switching err a =>
    cases h
    refine hs.unlock_ok (hh.mpr rfl) ⟨_, past, .asleep err a, past, hv, ?_,
      .callback err past a, hok⟩
    rw [FutexSys.view_setLt_self]
    simp only [FutexSys.view, hq, hr]
    rfl
  | _ => simp [Phase.view] at h

theorem FutexSys.Inv.resume_ok (h : futexStep s .resume = some s') : s.StepOk s' := by
  simp only [futexStep] at h
  split at h
  · cases h
  · rename_i t queue hqueue
    have hnd := hs.wf.readyNodup
    rw [hqueue] at hnd
    obtain ⟨hnot, hndq⟩ := nodup_cons.mp hnd
    obtain ⟨p, past, hv, hok, hlt, hh, hq, hr⟩ := hs.phase t
    have hready := hr.mp (by simp [hqueue])
    cases p with
    | handed a w =>
      simp only [hlt, Phase.view, if_true] at h
      cases h
      refine ⟨⟨hs.wf.init, hs.wf.sleepers, hs.wf.named, hs.wf.nodup, hndq, hs.wf.ticks⟩,
        hs.moves_of_others (t := t) ?_ ?_⟩
      · refine ⟨_, past, .resumed a w, past, hv, ?_, .resume past a w, hok⟩
        rw [FutexSys.view_setLt_self]
        simp only [FutexSys.view, hh, hq, hnot, decide_false]
        rfl
      · intro u hu
        refine FutexSys.view_congr Iff.rfl Iff.rfl ?_ (update_of_ne hu ..)
        simp [FutexSys.setLt, hqueue, hu]
    | _ => simp [Phase.view] at hready

theorem FutexSys.Inv.wakeRet_ok (h : futexStep s (.wakeRet t) = some s') : s.StepOk s' := by
  obtain ⟨p, past, hv, hok, hlt, hh, hq, hr⟩ := hs.phase t
  simp only [futexStep, hlt] at h
  cases p with
  | resumed a w =>
    cases h
    refine hs.setLt_ok ⟨_, past, .user w.err, _, hv, ?_, .wakeRet past a w, hok⟩
    rw [FutexSys.view_setLt_self, hv]
    rfl
  | _ => simp [Phase.view] at h

theorem FutexSys.Inv.setErr_ok {err : Int} (h : futexStep s (.setErr t err) = some s') :
    s.StepOk s' := by
  obtain ⟨p, past, hv, hok, hlt, hh, hq, hr⟩ := hs.phase t
  simp only [futexStep, hlt] at h
  cases p with
  | user err₀ =>
    cases h
    refine hs.setLt_ok ⟨_, past, .user err, past, hv, ?_, .setErr err₀ err past, hok⟩
    rw [FutexSys.view_setLt_self, hv]
    rfl
  | _ => simp [Phase.view] at h

theorem FutexSys.Inv.setTick_ok {c : Ticker} {lock : Option Holder}
    (hlock : ∀ t, lock = some (.caller t) ↔ s.lock = some (.caller t))
    (hothers : ∀ j, j ≠ k → (lock = some (.tick j) ↔ s.lock = some (.tick j)))
    (hc : c.Ok (lock = some (.tick k))) : s.StepOk ({ s with lock := lock }.setTick k c) := by
  refine ⟨⟨hs.wf.init, hs.wf.sleepers, hs.wf.named, hs.wf.nodup, hs.wf.readyNodup, ?_⟩, ?_⟩
  · intro j
    by_cases hj : j = k
    · subst hj
      simpa only [FutexSys.setTick, update_self] using hc
    · obtain ⟨hiff, hbal⟩ := hs.wf.ticks j
      simp only [FutexSys.setTick, update_of_ne hj]
      exact ⟨(hothers j hj).trans hiff, hbal⟩
  · intro t
    exact hs.stay (FutexSys.view_congr (hlock t) Iff.rfl Iff.rfl rfl)

theorem FutexSys.Inv.tickRead_ok (h : futexStep s (.tickRead k) = some s') : s.StepOk s' := by
  simp only [futexStep] at h
  split at h <;> cases h
  rename_i hpc
  obtain ⟨hiff, hbal⟩ := hs.wf.ticks k
  rw [hpc.1] at hiff hbal
  exact hs.setTick_ok (fun _ => Iff.rfl) (fun _ _ => Iff.rfl) ⟨hiff, hbal⟩

theorem FutexSys.Inv.tickTry_ok {real mntc : BitVec 64}
    (h : futexStep s (.tickTry k real mntc) = some s') : s.StepOk s' := by
  simp only [futexStep] at h
  split at h
  · rename_i hpc
    obtain ⟨hiff, hbal⟩ := hs.wf.ticks k
    rw [hpc] at hiff hbal
    split at h <;> cases h
    · rename_i hfree
      refine hs.setTick_ok (by simp [hfree]) ?_ ⟨by simp [TickPc.inside], ?_⟩
      · intro j hj
        simp [hfree, Ne.symm hj]
      · simp [TickPc.inside] at hbal ⊢
        omega
    · exact hs.setTick_ok (fun _ => Iff.rfl) (fun _ _ => Iff.rfl) ⟨hiff, hbal⟩
  · cases h

theorem FutexSys.Inv.tickLoop_ok (h : futexStep s (.tickLoop k) = some s') : s.StepOk s' := by
  simp only [futexStep] at h
  split at h
  · rename_i real mntc hpc
    obtain ⟨hiff, hbal⟩ := hs.wf.ticks k
    rw [hpc] at hiff hbal
    have hlock : s.lock = some (.tick k) := hiff.mpr rfl
    have hfirst : s.StepOk (s.setTick k { s.ticks k with pc := .unlocking }) :=
      hs.setTick_ok (fun _ => Iff.rfl) (fun _ _ => Iff.rfl) ⟨hiff, hbal⟩
    have hleave := hfirst.inv.leave_ok (futexTick_splits s.queues real mntc)
      (fun u _ heq => by rw [show s.lock = some (.caller u) from heq] at hlock; cases hlock) h
    exact ⟨hleave.wf, hleave.moves⟩
  · cases h

theorem FutexSys.Inv.tickUnlock_ok (h : futexStep s (.tickUnlock k) = some s') : s.StepOk s' := by
  simp only [futexStep] at h
  split at h <;> cases h
  rename_i hpc
  obtain ⟨hiff, hbal⟩ := hs.wf.ticks k
  rw [hpc] at hiff hbal
  have hlock : s.lock = some (.tick k) := hiff.mpr rfl
  refine hs.setTick_ok (by simp [hlock]) ?_ ⟨by simp [TickPc.inside], ?_⟩
  · intro j hj
    simp [hlock, Ne.symm hj]
  · simp [TickPc.inside] at hbal ⊢
    omega

/-- **Every step keeps the queue well formed and is a move of every lthread.** -/
theorem FutexSys.Inv.step_ok {l : FutexStep} (h : futexStep s l = some s') : s.StepOk s' := by
  cases l with
  | call t args time => exact hs.call_ok h
  | acquire t => exact hs.acquire_ok h
  | switch t junk => exact hs.switch_ok h
  | release t => exact hs.release_ok h
  | callback t => exact hs.callback_ok h
  | resume => exact hs.resume_ok h
  | wakeRet t => exact hs.wakeRet_ok h
  | setErr t err => exact hs.setErr_ok h
  | store uaddr val =>
    cases h
    exact ⟨⟨hs.wf.init, hs.wf.sleepers, hs.wf.named, hs.wf.nodup, hs.wf.readyNodup, hs.wf.ticks⟩,
      fun t => hs.stay rfl⟩
  | tickRead k => exact hs.tickRead_ok h
  | tickTry k real mntc => exact hs.tickTry_ok h
  | tickLoop k => exact hs.tickLoop_ok h
  | tickUnlock k => exact hs.tickUnlock_ok h

end

theorem FutexSys.Initial.inv (hs : s.Initial) : s.Inv := by
  refine ⟨⟨hs.init, ?_, ?_, ?_, ?_, ?_⟩, ?_⟩
  · simp [hs.sleepers, hs.queues]
  · simp [hs.queues]
  · simp [hs.queues]
  · simp [hs.schedQueue]
  · intro k
    rw [hs.ticks k]
    exact ⟨by simp [hs.lock, TickPc.inside], by simp [TickPc.inside]⟩
  · intro t
    have hlt := hs.lts t
    refine ⟨.user (s.lts t).err, [], ?_, nofun, nofun⟩
    simp only [FutexSys.view, hs.lock, hs.queues, hs.schedQueue, Phase.view]
    generalize s.lts t = c at hlt
    obtain ⟨pc, err, cb, cur, past⟩ := c
    obtain ⟨rfl, rfl, rfl, rfl⟩ := hlt
    simp

theorem FutexSys.Inv.of_reaches {ok : FutexSys → FutexStep → Prop} (hs : s.Inv)
    (h : Reaches futexStep ok s s') : s'.Inv :=
  h.invariant FutexSys.Inv (fun _ _ _ hs _ hstep => (hs.step_ok hstep).inv) hs

/-! ## The invariant of the queue -/

structure FutexSys.QueueInvariant (s : FutexSys) : Prop where
  sleepers : s.sleepers = s.queues.length
  notNull : ∀ fq ∈ s.queues, fq.futexLt ≠ none
  nodup : (s.queues.map FutexQ.futexLt).Nodup
  /-- A call that slept was handed to the scheduler once, or its lthread is still queued. -/
  handed : ∀ t c, (s.lts t).cur = some c →
    c.sleeps = c.handedBy.length + if some t ∈ s.queues.map FutexQ.futexLt then 1 else 0
  handedPast : ∀ t, ∀ c ∈ (s.lts t).past, c.sleeps = c.handedBy.length
  /-- A wait returns `-ETIMEDOUT` if a tick removed it and 0 if a wake or requeue did. -/
  timedOut : ∀ t, ∀ c ∈ (s.lts t).past, c.args.isWait = true →
    (c.rc = some (-ETIMEDOUT) ↔ c.handedBy = [.tick])
  woken : ∀ t, ∀ c ∈ (s.lts t).past, c.args.isWait = true →
    (c.rc = some 0 ↔ c.handedBy = [.wake])
  /-- Who took the lock gave it back once. -/
  released : ∀ t, ∀ c ∈ (s.lts t).past ++ (s.lts t).cur.toList,
    c.releases = c.acquires ∧ c.acquires ≤ 1
  ticks : ∀ k, (s.ticks k).releases = (s.ticks k).acquires

theorem FutexSys.WellFormed.map_futexLt (hs : s.WellFormed) :
    s.queues.map FutexQ.futexLt = (s.queues.map FutexQ.owner).map some := by
  rw [map_map]
  apply map_congr_left
  intro fq hfq
  exact hs.named fq.ident (mem_map_of_mem hfq)

/-- **The futex queue invariant.** In every state that calls and ticks reach in any
interleaving, while the lock is free. -/
theorem futex_queue_invariant (s₀ s : FutexSys) (h₀ : s₀.Initial)
    (hrun : Reaches futexStep (fun _ _ => True) s₀ s) (hfree : s.lock = none) :
    s.QueueInvariant := by
  have hs := h₀.inv.of_reaches hrun
  have hlts := hs.wf.map_futexLt
  have hpast : ∀ t, ∀ c ∈ (s.lts t).past, c.Finished := by
    intro t
    obtain ⟨p, past, _, hok, hlt, _⟩ := hs.phase t
    rw [hlt]
    cases p <;> exact hok.past
  refine ⟨hs.wf.sleepers, ?_, ?_, ?_, fun t c hc => (hpast t c hc).handed.symm,
    fun t c hc => (hpast t c hc).timedOut, fun t c hc => (hpast t c hc).woken, ?_, ?_⟩
  · intro fq hfq
    rw [show fq.futexLt = some fq.owner from hs.wf.named fq.ident (List.mem_map_of_mem hfq)]
    exact Option.some_ne_none _
  · rw [hlts]
    exact hs.wf.nodup.map (Option.some_injective _)
  · intro t c hc
    obtain ⟨p, past, _, _, hlt, hh, hq, _⟩ := hs.phase t
    rw [hlt] at hc
    rw [hfree] at hh
    have hmem : some t ∈ s.queues.map FutexQ.futexLt ↔ (Phase.view past p).queued = true := by
      rw [hlts, List.mem_map_of_injective (Option.some_injective _)]
      exact hq
    simp only [hmem]
    cases p <;> simp [Phase.view] at hc hh ⊢ <;> rw [← hc] <;> rfl
  · intro t c hc
    rcases List.mem_append.mp hc with hc | hc
    · exact ⟨(hpast t c hc).released, (hpast t c hc).once⟩
    · obtain ⟨p, past, _, _, hlt, hh, _, _⟩ := hs.phase t
      rw [hlt] at hc
      rw [hfree] at hh
      cases p <;> simp [Phase.view] at hc hh <;>
        simp [hc, CallRec.handed, CallRec.unlocked, CallRec.slept]
  · intro k
    obtain ⟨hiff, hbal⟩ := hs.wf.ticks k
    rw [hfree] at hiff
    have hout : (s.ticks k).pc.inside = false := by simpa using hiff
    rw [hbal, hout]
    rfl

def FutexSys.idle : FutexSys where
  queues := []
  sleepers := 0
  lock := none
  init := false
  word := fun _ => 0
  schedQueue := []
  lts := fun _ => ⟨.user, 0, false, none, []⟩
  ticks := fun _ => ⟨.idle, 0, 0⟩

theorem FutexSys.idle_initial : FutexSys.idle.Initial :=
  ⟨rfl, rfl, rfl, rfl, rfl, fun _ => ⟨rfl, rfl, rfl, rfl⟩, fun _ => rfl⟩

def waitArgs : FutexArgs := ⟨0x1000, FUTEX_WAIT, 0, 0, ⟨0, 0⟩, 0, 0⟩

def wakeArgs : FutexArgs := ⟨0x1000, FUTEX_WAKE, 1, 0, ⟨0, 0⟩, 0, 0⟩

def wakeupRun : List FutexStep :=
  [.call 1 waitArgs ⟨0, 0⟩, .acquire 1, .switch 1 0, .callback 1, .store 0x1000 1,
    .call 2 wakeArgs ⟨0, 0⟩, .acquire 2, .switch 2 0, .release 2, .resume, .wakeRet 1]

theorem futex_queue_invariant_wakeup :
    ∃ s, exec futexStep (fun _ _ => True) .idle wakeupRun = some s
      ∧ FutexSys.idle.Initial ∧ s.lock = none ∧ s.QueueInvariant := by
  have hlock : (exec futexStep (fun _ _ => True) .idle wakeupRun).map FutexSys.lock = some none := by
    decide
  obtain ⟨s, hexec, hfree⟩ := Option.map_eq_some_iff.mp hlock
  exact ⟨s, hexec, FutexSys.idle_initial, hfree,
    futex_queue_invariant .idle s FutexSys.idle_initial (exec_reaches _ hexec) hfree⟩

end RktIo.Sched
