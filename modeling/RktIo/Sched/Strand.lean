import RktIo.Sched.LthreadSys

/-!
# Finished lthreads

The scheduler decides once what becomes of an lthread that has ended: when it finishes the
exit it wakes the joiner and frees a detached lthread, and when it finds a cancelled one it
wakes the joiner. A detach or a join that comes later finds nobody who looks again.
-/

namespace RktIo.Sched

open Walk Transition LthreadSys

/-! ## The schedulers that finish an exit -/

def SchedState.ends : SchedState → Option (Lt × Bool)
  | .exiting t => some (t, false)
  | .unlocked t => some (t, true)
  | _ => none

variable {s s' : LthreadSys} {l : LtStep} {k : Nat} {t : Lt}

theorem setSched_ends {st : SchedState} (hk : (s.scheds k).ends = none) (hst : st.ends = none)
    (j : Nat) : ((s.setSched k st).scheds j).ends = (s.scheds j).ends := by
  simp only [LthreadSys.setSched, Function.update_apply]
  split_ifs with hj
  · rw [hst, hj, hk]
  · rfl

theorem runsOn_ends {a : Lt} (h : s.scheds k = .running a) : (s.scheds k).ends = none := by
  rw [h]
  rfl

def LtStep.isExit : LtStep → Bool
  | .exit _ | .finish _ | .reclaim _ => true
  | _ => false

theorem free_scheds (s : LthreadSys) (t : Lt) : (s.free t).scheds = s.scheds := by
  unfold LthreadSys.free
  split <;> rfl

theorem ltStep_ends (h : ltStep s l = some s') (hl : l.isExit = false) (j : Nat) :
    (s'.scheds j).ends = (s.scheds j).ends := by
  cases ltStep_takes h with
  | exit | finish | reclaim => cases hl
  | create | hostTake | hostDoneSync | hostDone | detach2 | cancelDisabled | cancel | cancelEnqueue
  | setCancelState | setPinned => rfl
  | resume hk hq => exact setSched_ends (s := { s with schedQueue := _ }) (by rw [hk]; rfl) rfl j
  | resumeRet hk hq ht =>
    exact setSched_ends (s := { s with returnQueue := _ }) (by rw [hk]; rfl) rfl j
  | @check k t s' hk h =>
    have hnone : (s.scheds k).ends = none := by rw [hk]; rfl
    unfold LthreadSys.resume at h
    dsimp only at h
    split_ifs at h <;> cases h
    · rw [setSched_ends _ rfl] <;> rw [free_scheds] <;> first | rfl | exact hnone
    · exact setSched_ends hnone rfl j
    · exact setSched_ends hnone rfl j
  | @start k t s' hk h =>
    have hnone : (s.scheds k).ends = none := by rw [hk]; rfl
    unfold LthreadSys.start at h
    dsimp only at h
    split_ifs at h <;> cases h
    · exact setSched_ends hnone rfl j
    · exact setSched_ends hnone rfl j
  | @callback k t cb s' hk h =>
    have hnone : (s.scheds k).ends = none := by rw [hk]; rfl
    simp only [LthreadSys.callback] at h
    split at h
    · cases h
      exact setSched_ends hnone rfl j
    · cases h
      exact setSched_ends hnone rfl j
    · cases h
      exact setSched_ends hnone rfl j
    · split at h <;> cases h
      exact setSched_ends hnone rfl j
  | yield ha => exact setSched_ends (runsOn_ends (userOn_eq ha).1) rfl j
  | hostCall ha =>
    unfold LthreadSys.hostCall
    dsimp only
    split <;> exact setSched_ends (runsOn_ends (userOn_eq ha).1) rfl j
  | syncDone hk hst => exact setSched_ends (by rw [hk]; rfl) rfl j
  | futexWait ha h =>
    unfold LthreadSys.futexWait at h
    split_ifs at h
    cases h
    exact setSched_ends (runsOn_ends (userOn_eq ha).1) rfl j
  | futexWake h | futexRequeue h | futexTick h =>
    unfold LthreadSys.futexWalk at h
    split_ifs at h
    obtain ⟨ts, -, rfl⟩ := Option.map_eq_some_iff.mp h
    rfl
  | join ha h =>
    unfold LthreadSys.join at h
    split_ifs at h <;> cases h <;> rfl
  | joinLock hr h =>
    unfold LthreadSys.joinLock at h
    dsimp only at h
    split_ifs at h
    · cases h
      rfl
    · split at h <;> cases h
      · rfl
      · exact setSched_ends (runsOn_ends (runsOn_eq hr).1) rfl j
  | joinFinish hr =>
    rw [free_scheds]
    rfl

/-! ## What the schedulers have still to do -/

/-- An exited lthread that is detached, or joined, is still seen by a scheduler; `e` says that
one has it exiting, `u` that one has unlocked it. -/
structure Lthread.Settled (e u : Prop) (c : Lthread) : Prop where
  detached : c.live = true → c.exited = true → c.detach = true → e ∨ u
  joined : c.exited = true → c.ltJoin ≠ none → e
  reaped : c.reaped = true → c.ltJoin = none
  seen : c.seen = true → e ∨ u

theorem Lthread.Settled.mono {e u e' u' : Prop} {c : Lthread} (h : c.Settled e u) (he : e → e')
    (hu : u → u') : c.Settled e' u' where
  detached := fun h1 h2 h3 => (h.detached h1 h2 h3).imp he hu
  joined := fun h1 h2 => he (h.joined h1 h2)
  reaped := h.reaped
  seen := fun h1 => (h.seen h1).imp he hu

theorem Lthread.Settled.freed {e u : Prop} : Lthread.freed.Settled e u := by
  constructor <;> simp [Lthread.freed]

def LthreadSys.Ends (s : LthreadSys) (t : Lt) (unlocked : Bool) : Prop :=
  ∃ k, (s.scheds k).ends = some (t, unlocked)

def LthreadSys.Settling (s : LthreadSys) : Prop :=
  s.ForallLt (fun t => Lthread.Settled (s.Ends t false) (s.Ends t true))

theorem LthreadSys.Ends.setSched {st : SchedState} {u : Bool} (h : s.Ends t u)
    (hk : (s.scheds k).ends ≠ some (t, u)) : (s.setSched k st).Ends t u := by
  obtain ⟨j, hj⟩ := h
  have hjk : j ≠ k := by
    rintro rfl
    exact hk hj
  exact ⟨j, by rw [setSched_of_ne st hjk, hj]⟩

theorem LthreadSys.Ends.self {st : SchedState} {u : Bool} (h : st.ends = some (t, u)) :
    (s.setSched k st).Ends t u :=
  ⟨k, by rw [LthreadSys.setSched_self, h]⟩

/-- A detach finds the target running, or still seen by the scheduler; a join finds that no
scheduler has processed the cancellation of the target. -/
def settleSafe (s : LthreadSys) : LtStep → Bool
  | .detach2 t => !(s.lts t).exited || (s.lts t).seen
  | .joinLock k =>
    match s.runsOn k with
    | some (_, .locking t) => (s.lts t).exited || !(s.lts t).reaped
    | _ => true
  | _ => true

abbrev SettleOk (s : LthreadSys) (l : LtStep) : Prop := settleSafe s l = true

theorem Lthread.Settled.congr {e u : Prop} {c c' : Lthread} (h : c.Settled e u)
    (hlife : c'.lifeFields = c.lifeFields) : c'.Settled e u := by
  simp only [Lthread.lifeFields, Prod.mk.injEq] at hlife
  obtain ⟨hlive, hex, hdet, -, hseen, hreap, hjoin⟩ := hlife
  constructor
  · rw [hlive, hex, hdet]
    exact h.detached
  · rw [hex, hjoin]
    exact h.joined
  · rw [hreap, hjoin]
    exact h.reaped
  · rw [hseen]
    exact h.seen

namespace LthreadSys.Settling

theorem initial (alwaysSync : Bool) : (LthreadSys.initial alwaysSync).Settling :=
  fun _ => Lthread.Settled.freed

theorem exit {a : Lt} (hs : s.Settling) (hk : s.scheds k = .running a) :
    ((s.modify a (fun c => { c with exited := true, busy := true, seen := true })).setSched k
      (.exiting a)).Settling := by
  have hself : (s.setSched k (.exiting a)).Ends a false := Ends.self rfl
  have hkeep : ∀ b u, s.Ends b u → (s.setSched k (.exiting a)).Ends b u := by
    intro b u hb
    refine hb.setSched ?_
    rw [hk]
    simp [SchedState.ends]
  refine .setSched (.modify (fun b => (hs b).mono (hkeep b false) (hkeep b true)) ?_)
  intro c hc
  exact ⟨fun _ _ _ => Or.inl hself, fun _ _ => hself, hc.reaped, fun _ => Or.inl hself⟩

theorem finish (hs : s.Settling) (hk : s.scheds k = .exiting t) (h : s.finish k t = some s') :
    s'.Settling := by
  unfold LthreadSys.finish at h
  split_ifs at h
  rw [LthreadSys.wakeJoiner, modify_modify] at h
  cases h
  have hself : (s.setSched k (.unlocked t)).Ends t true := Ends.self rfl
  refine .setSched (.modify_self ?_ ?_)
  · intro b hb
    have hne : ∀ u, (s.scheds k).ends ≠ some (b, u) := by
      intro u
      rw [hk]
      simp [SchedState.ends, hb.symm]
    exact (hs b).mono (fun he => he.setSched (hne false)) (fun hu => hu.setSched (hne true))
  · exact ⟨fun _ _ _ => Or.inr hself, fun _ hne => absurd rfl hne, fun _ => rfl,
      fun _ => Or.inr hself⟩

theorem reclaim (hs : s.Settling) (hk : s.scheds k = .unlocked t)
    (h : s.reclaim k t = some s') : s'.Settling := by
  unfold LthreadSys.reclaim at h
  split_ifs at h with hlive
  have hlive' : (s.lts t).live = true := by simpa using hlive
  dsimp only at h
  rw [modify_lts_self] at h
  have hends : (s.scheds k).ends = some (t, true) := by rw [hk]; rfl
  have hne : ∀ b u, b ≠ t → (s.scheds k).ends ≠ some (b, u) := by
    intro b u hb
    rw [hends]
    simp [hb.symm]
  cases h
  split_ifs with hdet
  · rw [free_eq (by rw [modify_lts_self]; exact hlive')]
    intro b
    rcases eq_or_ne b t with rfl | hb
    · simp only [LthreadSys.setSched, Function.update_self]
      exact Lthread.Settled.freed
    · simp only [LthreadSys.setSched, Function.update_of_ne hb, modify_lts_of_ne _ hb]
      exact (hs b).mono (fun he => he.setSched (hne b false hb))
        (fun hu => hu.setSched (hne b true hb))
  · have hst := hs t
    refine .setSched (.modify_self ?_ ?_)
    · intro b hb
      exact (hs b).mono (fun he => he.setSched (hne b false hb))
        (fun hu => hu.setSched (hne b true hb))
    · refine ⟨fun _ _ hd => absurd hd hdet, fun hex hj => ?_, hst.reaped,
        fun hseen => by cases hseen⟩
      exact (hst.joined hex hj).setSched (by rw [hends]; simp)

theorem of_forall (h : ltStep s l = some s') (hl : l.isExit = false)
    (hs : s'.ForallLt (fun b => Lthread.Settled (s.Ends b false) (s.Ends b true))) :
    s'.Settling := by
  intro b
  have hends : ∀ u, s.Ends b u → s'.Ends b u := by
    rintro u ⟨j, hj⟩
    exact ⟨j, by rw [ltStep_ends h hl, hj]⟩
  exact (hs b).mono (hends false) (hends true)

theorem joinLock {a : Lt} (hs : s.Settling)
    (hsafe : (s.lts t).exited = true ∨ (s.lts t).reaped = false)
    (h : s.joinLock k a t = some s') :
    s'.ForallLt (fun b => Lthread.Settled (s.Ends b false) (s.Ends b true)) := by
  unfold LthreadSys.joinLock at h
  dsimp only at h
  rw [modify_lts_self] at h
  dsimp only at h
  split_ifs at h with hopen hex
  · cases h
    exact .modify (.modify (.modify hs (fun _ hc => hc.congr rfl)) (fun _ hc => hc.congr rfl))
      (fun _ hc => hc.congr rfl)
  · split at h
    · cases h
      exact .modify (.modify hs (fun _ hc => hc.congr rfl)) (fun _ hc => hc.congr rfl)
    · rw [modify_modify] at h
      cases h
      have hst := hs t
      have hreap : (s.lts t).reaped = false := hsafe.resolve_left hex
      refine .setSched (.modify (.modify_self (fun b _ => hs b) ?_) (fun _ hc => hc.congr rfl))
      -- the joiner is registered before the exit and before the cancellation is processed
      exact ⟨hst.detached, fun he => absurd he hex, fun hr => absurd (hreap.symm.trans hr) (by simp),
        hst.seen⟩

theorem check (hs : s.Settling) (h : s.resume k t = some s') :
    s'.ForallLt (fun b => Lthread.Settled (s.Ends b false) (s.Ends b true)) := by
  unfold LthreadSys.resume at h
  dsimp only at h
  rw [LthreadSys.wakeJoiner, modify_modify] at h
  have hwake : ∀ (e u : Prop) (c : Lthread), c.Settled e u →
      { c with ltJoin := none, reaped := true }.Settled e u := fun e u c hc =>
    ⟨hc.detached, fun _ hne => absurd rfl hne, fun _ => rfl, hc.seen⟩
  split_ifs at h <;> cases h
  · exact .setSched (.free (.modify (s := s.enqueue _) hs (fun c hc => hwake _ _ c hc))
      Lthread.Settled.freed)
  · exact .setSched (.modify (s := s.enqueue _) hs (fun c hc => hwake _ _ c hc))
  · exact hs

/-- **One step.** -/
theorem step (hs : s.Settling) (hok : SettleOk s l) (h : ltStep s l = some s') : s'.Settling := by
  have hstep := h
  by_cases hq : l.quiet = true
  · refine of_forall h ?_ (fun b => (hs b).congr (ltStep_quiet h hq b))
    cases l <;> first | rfl | cases hq
  cases ltStep_takes h with
  | create hlive hslot =>
    refine of_forall hstep rfl ?_
    intro b
    simp only [LthreadSys.enqueue, Function.update_apply]
    split_ifs
    · constructor <;> simp [Lthread.created, Lthread.freed]
    · exact hs b
  | check hk h => exact of_forall hstep rfl (check hs h)
  | start hk h =>
    simp only [LthreadSys.start] at h
    split_ifs at h <;> cases h
    · exact of_forall hstep rfl (.setSched (.modify hs (fun c hc =>
        ⟨fun _ he => (by cases he), fun he => (by cases he), hc.reaped, hc.seen⟩)))
    · exact of_forall hstep rfl hs
  | @joinLock k a t s' hr h =>
    have hsafe : (s.lts t).exited = true ∨ (s.lts t).reaped = false := by
      simpa [SettleOk, settleSafe, hr] using hok
    exact of_forall hstep rfl (joinLock hs hsafe h)
  | joinFinish hr =>
    exact of_forall hstep rfl
      (.free (.modify hs (fun _ hc => hc.congr rfl)) Lthread.Settled.freed)
  | exit ha hbusy => exact exit hs (userOn_eq ha).1
  | finish hk h => exact finish hs hk h
  | reclaim hk h => exact reclaim hs hk h
  | @detach2 t hlive hbusy =>
    have hsafe : (s.lts t).exited = false ∨ (s.lts t).seen = true := by
      simpa [SettleOk, settleSafe] using hok
    have hst := hs t
    refine of_forall hstep rfl (.modify_self (fun b _ => hs b) ?_)
    refine ⟨fun _ he _ => ?_, hst.joined, hst.reaped, hst.seen⟩
    -- the scheduler has still to read `LT_ST_DETACH`
    exact hst.seen (hsafe.resolve_left (fun hn => by rw [hn] at he; cases he))
  | cancelDisabled hstate => exact hs
  | @cancel t hlive hstate =>
    have hmod : (s.modify t (fun c => { c with cancelled := true })).ForallLt
        (fun b => Lthread.Settled (s.Ends b false) (s.Ends b true)) :=
      .modify hs (fun _ hc => ⟨hc.detached, hc.joined, hc.reaped, hc.seen⟩)
    exact of_forall hstep rfl hmod
  | _ => exact absurd rfl hq

end LthreadSys.Settling

/-! ## No finished lthread is stranded -/

/-- **No finished lthread is stranded**, in every run in which an lthread is detached before
the scheduler has finished its exit, and joined before a scheduler has processed its
cancellation: when no scheduler has a step of its exit to do, an exited and detached lthread
is freed, and no joiner is registered at an exited or reaped one. -/
theorem no_stranded_lthread {alwaysSync : Bool} (t : Lt)
    (h : Reaches ltStep SettleOk (.initial alwaysSync) s)
    (hdone : ∀ k, s.scheds k ≠ .exiting t ∧ s.scheds k ≠ .unlocked t) :
    ((s.lts t).exited = true → (s.lts t).detach = true → (s.lts t).live = false) ∧
    ((s.lts t).exited = true ∨ (s.lts t).reaped = true → (s.lts t).ltJoin = none) := by
  have hs : s.Settling := h.invariant LthreadSys.Settling
    (fun _ _ _ hs hok hstep => hs.step hok hstep) (LthreadSys.Settling.initial alwaysSync)
  have hno : ∀ u, ¬ s.Ends t u := by
    rintro u ⟨k, hk⟩
    cases hst : s.scheds k <;> rw [hst] at hk <;> cases hk
    · exact (hdone k).1 hst
    · exact (hdone k).2 hst
  have hst := hs t
  constructor
  · intro hex hdet
    by_contra hlive
    exact (hst.detached (by simpa using hlive) hex hdet).elim (hno false) (hno true)
  · rintro (hex | hreap)
    · by_contra hjoin
      exact hno false (hst.joined hex hjoin)
    · exact hst.reaped hreap

def joinedRun : List LtStep :=
  [.create 1 1 false, .resume 0, .check 0, .start 0, .create 2 2 false, .resume 1, .check 1,
    .start 1, .join 1 1, .joinLock 1, .callback 1, .exit 0, .finish 0, .reclaim 0]

def joinedState (n : Nat) : LthreadSys :=
  (exec ltStep SettleOk (.initial false) (joinedRun.take n)).getD (.initial false)

theorem no_stranded_lthread_joined :
    ((joinedState 12).lts 1).exited = true ∧ ((joinedState 12).lts 1).ltJoin = some 2
      ∧ Reaches ltStep SettleOk (.initial false) (joinedState 14)
      ∧ ((joinedState 14).lts 1).exited = true ∧ ((joinedState 14).lts 1).ltJoin = none := by
  have hreach : Reaches ltStep SettleOk (.initial false) (joinedState 14) :=
    exec_reaches (joinedRun.take 14) rfl
  refine ⟨rfl, rfl, hreach, rfl, (no_stranded_lthread 1 hreach ?_).2 (Or.inl rfl)⟩
  intro k
  match k with
  | 0 => exact ⟨nofun, nofun⟩
  | 1 => exact ⟨nofun, nofun⟩
  | _ + 2 => exact ⟨nofun, nofun⟩

def lateDetachRun : List LtStep :=
  [.create 1 1 false, .resume 0, .check 0, .start 0, .exit 0, .finish 0, .reclaim 0, .detach2 1]

def lateDetachState : LthreadSys :=
  (exec ltStep (fun _ _ => True) (.initial false) lateDetachRun).getD (.initial false)

/-- Lthread 1 is cancelled in the scheduler queue, and a scheduler finds both of its entries.
Lthread 2 on scheduler 1 joins it then. -/
def lateJoinRun : List LtStep :=
  [.create 1 1 false, .resume 0, .check 0, .start 0, .create 2 2 false, .resume 1, .check 1,
    .start 1, .yield 0, .callback 0, .cancel 1, .cancelEnqueue 1, .resume 0, .check 0, .resume 0,
    .check 0, .join 1 1, .joinLock 1, .callback 1]

def lateJoinState : LthreadSys :=
  (exec ltStep (fun _ _ => True) (.initial false) lateJoinRun).getD (.initial false)

structure LthreadSys.Idle (s : LthreadSys) : Prop where
  scheds : ∀ k, s.scheds k = .idle
  schedQueue : s.schedQueue = []
  futexQueues : s.futexQueues = []
  hostCalls : s.syscallQueue ++ s.host ++ s.returnQueue = []
  cancels : s.cancels = []

/-- **Stranded lthreads.** Detached behind its exit, an lthread is never freed; a joiner that
registers behind the cancellation is never woken. -/
theorem lthread_stranded :
    (Reaches ltStep (fun _ _ => True) (.initial false) lateDetachState ∧ lateDetachState.Idle
      ∧ (lateDetachState.lts 1).exited = true ∧ (lateDetachState.lts 1).detach = true
      ∧ (lateDetachState.lts 1).live = true) ∧
    (Reaches ltStep (fun _ _ => True) (.initial false) lateJoinState ∧ lateJoinState.Idle
      ∧ (lateJoinState.lts 1).reaped = true ∧ (lateJoinState.lts 1).ltJoin = some 2) := by
  refine ⟨⟨exec_reaches lateDetachRun rfl, ⟨?_, rfl, rfl, rfl, rfl⟩, rfl, rfl, rfl⟩,
    exec_reaches lateJoinRun rfl, ⟨?_, rfl, rfl, rfl, rfl⟩, rfl, rfl⟩
  · intro k
    match k with
    | 0 => rfl
    | _ + 1 => rfl
  · intro k
    match k with
    | 0 => rfl
    | 1 => rfl
    | _ + 2 => rfl

end RktIo.Sched
