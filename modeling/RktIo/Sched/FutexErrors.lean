import RktIo.Sched.FutexKey
import RktIo.Sched.FutexTimeout

/-!
# Futex errors

A call of `syscall_SYS_futex` on its own, from the check of the flags to its return or to the
context switch in which it goes to sleep, and the errors it should report.
-/

namespace RktIo.Sched

open Walk

/-! ## One call -/

def futexSection (s : FutexSys) (t : Lt) (junk : Int) : Option FutexSys :=
  (futexStep s (.switch t junk)).bind (fun s =>
    -- `ret_nounlock` is reached only after the sleep
    if (s.lts t).pc = .asleep then some s else futexStep s (.release t))

def futexCall (s : FutexSys) (t : Lt) (args : FutexArgs) (time : Timespec) (junk : Int) :
    Option FutexSys :=
  (futexStep s (.call t args time)).bind (fun s =>
    -- the early return
    if (s.lts t).pc = .user then some s
    else (futexStep s (.acquire t)).bind (fun s => futexSection s t junk))

/-- What a call leaves: the static variables and its return value; none if it sleeps. -/
structure CallEnd where
  queues : List FutexQ
  sleepers : Int
  lock : Option Holder
  rc : Option Int
  deriving DecidableEq

def FutexSys.callEnd (t : Lt) (s : FutexSys) : CallEnd where
  queues := s.queues
  sleepers := s.sleepers
  lock := s.lock
  rc := if (s.lts t).pc = .user then (s.lts t).past.getLast?.bind CallRec.rc else none

def futexResult (s : FutexSys) (t : Lt) (args : FutexArgs) (time : Timespec) (junk : Int) :
    Option CallEnd :=
  (futexCall s t args time junk).map (FutexSys.callEnd t)

def Section.callEnd (t : Lt) (r : Section) : CallEnd :=
  match r.outcome with
  | .done rc => ⟨r.queues, r.sleepers, none, some rc⟩
  | .sleeps => ⟨r.queues, r.sleepers, some (.caller t), none⟩

theorem handOver_place (w : Waker) (ts : List Lt) : ∀ (cs : Lt → Caller) (u : Lt),
    (handOver w ts cs u).pc = (cs u).pc
      ∧ (handOver w ts cs u).cur.isSome = (cs u).cur.isSome := by
  induction ts with
  | nil => intro cs u; exact ⟨rfl, rfl⟩
  | cons t ts ih =>
    intro cs u
    rw [handOver, (ih _ u).1, (ih _ u).2]
    by_cases hu : u = t
    · subst hu
      simp [Caller.handed, Caller.note]
    · simp [hu]

theorem Caller.ret_rc {c : Caller} (hcur : c.cur.isSome = true) (rc : Int) :
    (c.ret rc).past.getLast?.bind CallRec.rc = some rc := by
  obtain ⟨r, hr⟩ := Option.isSome_iff_exists.mp hcur
  simp [Caller.ret, hr]

variable {s : FutexSys} {t : Lt}

theorem futexSection_ends {f : Frame} (hlock : s.lock = some (.caller t))
    (hpc : (s.lts t).pc = .locked f) (hcur : (s.lts t).cur.isSome = true) (junk : Int) :
    let r := futexSwitch s.queues s.sleepers s.word t f junk
    (futexSection s t junk).map (FutexSys.callEnd t)
      = (futexLts r.unlinked).map (fun _ => r.callEnd t) := by
  simp only [futexSection, futexStep, hpc, FutexSys.leave, FutexSys.setLt]
  generalize futexSwitch s.queues s.sleepers s.word t f junk = r
  cases hlts : futexLts r.unlinked with
  | none => rfl
  | some lts =>
    obtain ⟨hpc', hcur'⟩ :=
      handOver_place .wake lts (Function.update s.lts t ((s.lts t).switched r)) t
    rw [Function.update_self] at hpc' hcur'
    simp only [Option.map_some, Option.bind_some]
    cases hout : r.outcome with
    | sleeps =>
      have hasleep : ((s.lts t).switched r).pc = .asleep := by simp only [Caller.switched, hout]
      rw [if_pos (hpc'.trans hasleep)]
      simp [FutexSys.callEnd, Section.callEnd, hout, hpc', hasleep, hlock]
    | done rc =>
      have hunlock : ((s.lts t).switched r).pc = .unlocking rc := by
        simp only [Caller.switched, hout]
      have hin : ((s.lts t).switched r).cur.isSome = true := by
        simpa only [Caller.switched, hout, Caller.note, Option.isSome_map] using hcur
      rw [hunlock] at hpc'
      rw [hin] at hcur'
      simp only [hpc', reduceCtorEq, if_false, Option.map_some, FutexSys.callEnd,
        Function.update_self]
      rw [if_pos (by rfl), Caller.ret_rc (by simpa [Caller.note] using hcur')]
      simp only [Section.callEnd, hout]

/-- **What a call comes to**: the early return, or what the `switch` does. -/
theorem futexCall_ends (hlock : s.lock = none) (huser : (s.lts t).pc = .user) (args : FutexArgs)
    (time : Timespec) (junk : Int) :
    futexResult s t args time junk =
      match futexPrelude args time with
      | none => some ⟨s.queues, s.sleepers, none, some (-ENOSYS)⟩
      | some f =>
        let r := futexSwitch s.queues s.sleepers s.word t f junk
        (futexLts r.unlinked).map (fun _ => r.callEnd t) := by
  unfold futexResult futexCall
  simp only [futexStep, huser, ne_eq, not_true_eq_false, if_false, hlock, ite_self]
  cases hpre : futexPrelude args time with
  | none =>
    simp only [FutexSys.setLt, Option.bind_some, Function.update_self, Caller.ret, if_true,
      Option.map_some, FutexSys.callEnd]
    simp
  | some f =>
    simp only [FutexSys.setLt, Option.bind_some, Function.update_self, reduceCtorEq, if_false,
      not_true_eq_false]
    apply futexSection_ends rfl
    · simp only [Function.update_self]
    · simp [Caller.note]

/-! ## The errors -/

def expectedError (word : BitVec 64 → BitVec 32) (a : FutexArgs) : Option Int :=
  if a.op &&& FUTEX_CLOCK_REALTIME ≠ 0 ∧ a.futexOp ≠ .wait ∧ a.futexOp ≠ .waitBitset then
    some (-ENOSYS)
  else
    match a.futexOp with
    | .waitBitset =>
      if a.val3 = 0 then some (-EINVAL)
      else if word a.uaddr ≠ a.val then some (-EAGAIN)
      else none
    | .wait => if word a.uaddr ≠ a.val then some (-EAGAIN) else none
    | .wakeBitset => if a.val3 = 0 then some (-EINVAL) else none
    | .wake => none
    | .cmpRequeue => if word a.uaddr ≠ a.val3 then some (-EAGAIN) else none
    | .requeue => none
    | .invalid => some (-ENOSYS)

/-- **Every error is reported and harmless**, in a call of `t` from state `s`, whatever the time
and whatever the uninitialised variable holds: the error comes with the queue, the number of
sleepers and the lock as they were; a wait without an error sleeps; and the return value does not
depend on what is not in the arguments and the state. -/
structure ErrorsRight (s : FutexSys) (t : Lt) (a : FutexArgs) : Prop where
  reported : ∀ rc, expectedError s.word a = some rc → ∀ time junk,
    futexResult s t a time junk
      = some ⟨s.queues, s.sleepers, none, some rc⟩
  accepted : expectedError s.word a = none → a.isWait = true → ∀ time junk,
    (futexResult s t a time junk).map CallEnd.rc = some none
  determined : ∀ time time' junk junk',
    (futexResult s t a time junk).map CallEnd.rc
      = (futexResult s t a time' junk').map CallEnd.rc

/-- A requeue that happens to return `-ENOSYS` and to change nothing: it moves `2^32 - 38` waiters
to the futex they wait on. -/
def RequeueReadsEnosys (s : FutexSys) (a : FutexArgs) : Prop :=
  let r := futexRequeue s.queues a.uaddr a.uaddr2 a.val (a.timeout.setWidth 32)
  a.futexOp = .requeue ∧ r.kept = s.queues ∧ r.unlinked = []
    ∧ (BitVec.ofNat 32 r.acc.w).toInt = -ENOSYS

def ErrorsOk (s : FutexSys) (a : FutexArgs) : Prop :=
  if a.op &&& FUTEX_CLOCK_REALTIME ≠ 0 then
    a.futexOp = .waitBitset ∨ a.futexOp = .cmpRequeue ∨ a.futexOp = .invalid
      ∨ RequeueReadsEnosys s a
  else a.futexOp = .cmpRequeue → s.word a.uaddr = a.val3

/-! ## The flag -/

def FutexOp.command : FutexOp → Option (BitVec 32)
  | .waitBitset => some FUTEX_WAIT_BITSET
  | .wait => some FUTEX_WAIT
  | .wakeBitset => some FUTEX_WAKE_BITSET
  | .wake => some FUTEX_WAKE
  | .cmpRequeue => some FUTEX_CMP_REQUEUE
  | .requeue => some FUTEX_REQUEUE
  | .invalid => none

theorem FutexOp.ofInt_command {op c : BitVec 32} (h : (FutexOp.ofInt op).command = some c) :
    op = c := by
  unfold FutexOp.ofInt at h
  split_ifs at h with h₁ h₂ h₃ h₄ h₅ h₆ <;> cases h <;> assumption

def FutexArgs.Passes (a : FutexArgs) : Prop :=
  a.op &&& FUTEX_CLOCK_REALTIME ≠ 0 →
    a.op &&& ~~~FUTEX_PRIVATE &&& ~~~FUTEX_CLOCK_REALTIME &&& (FUTEX_WAIT ||| FUTEX_WAIT_BITSET) ≠ 0

variable {a : FutexArgs}

theorem FutexArgs.passes_iff {c : BitVec 32} (h : a.futexOp.command = some c) :
    a.Passes ↔ (a.op &&& FUTEX_CLOCK_REALTIME ≠ 0 → c &&& (FUTEX_WAIT ||| FUTEX_WAIT_BITSET) ≠ 0) := by
  rw [FutexArgs.Passes, FutexOp.ofInt_command h]

theorem futexCall_refused (hlock : s.lock = none) (huser : (s.lts t).pc = .user)
    (h : ¬ a.Passes) (time : Timespec) (junk : Int) :
    futexResult s t a time junk
      = some ⟨s.queues, s.sleepers, none, some (-ENOSYS)⟩ := by
  obtain ⟨hflag, hbits⟩ := Classical.not_imp.mp h
  have hnone : futexPrelude a time = none := by
    rw [not_not, BitVec.and_assoc _ (~~~FUTEX_CLOCK_REALTIME)] at hbits
    simp only [futexPrelude, realtime_and_private]
    exact if_pos ⟨hflag, hbits⟩
  rw [futexCall_ends hlock huser, hnone]

theorem futexCall_passed (hlock : s.lock = none) (huser : (s.lts t).pc = .user)
    (h : a.Passes) (time : Timespec) (junk : Int) :
    ∃ f : Frame, f.args = a ∧
      let r := futexSwitch s.queues s.sleepers s.word t f junk
      futexResult s t a time junk
        = (futexLts r.unlinked).map (fun _ => r.callEnd t) := by
  cases hpre : futexPrelude a time with
  | none =>
    simp only [futexPrelude, realtime_and_private] at hpre
    split at hpre
    · rename_i href
      refine absurd (h href.1) (not_not.mpr ?_)
      rw [BitVec.and_assoc _ (~~~FUTEX_CLOCK_REALTIME)]
      exact href.2
    · cases hpre
  | some f =>
    refine ⟨f, (futexPrelude_eq_some hpre).1, ?_⟩
    rw [futexCall_ends hlock huser, hpre]

/-! ## The commands -/

variable {rc : Int} {σ : Type}

section Commands

variable {a : FutexArgs}

theorem ErrorsRight.of_error (herr : expectedError s.word a = some rc)
    (h : ∀ time junk, futexResult s t a time junk
      = some ⟨s.queues, s.sleepers, none, some rc⟩) : ErrorsRight s t a where
  reported rc' herr' time junk := by
    cases herr.symm.trans herr'
    exact h time junk
  accepted hnone := by
    rw [herr] at hnone
    cases hnone
  determined time time' junk junk' := by
    rw [h, h]

theorem ErrorsRight.of_none (hnone : expectedError s.word a = none) {rc : Option (Option Int)}
    (h : ∀ time junk, (futexResult s t a time junk).map CallEnd.rc = rc)
    (hwait : a.isWait = true → rc = some none) : ErrorsRight s t a where
  reported rc' herr := by
    rw [hnone] at herr
    cases herr
  accepted _ hw time junk := (h time junk).trans (hwait hw)
  determined time time' junk junk' := by rw [h, h]

section

variable (hlock : s.lock = none) (huser : (s.lts t).pc = .user) (hpass : a.Passes)

include hlock huser hpass

theorem futexWait_errorsRight (bitset : BitVec 32)
    (hswitch : ∀ f : Frame, f.args = a → ∀ junk, futexSwitch s.queues s.sleepers s.word t f junk = futexWait s.queues s.sleepers s.word t f bitset)
    (herr : expectedError s.word a = if s.word a.uaddr ≠ a.val then some (-EAGAIN) else none) :
    ErrorsRight s t a := by
  by_cases hword : s.word a.uaddr = a.val
  · apply ErrorsRight.of_none (by rw [herr, if_neg (not_not.mpr hword)]) _ (fun _ => rfl)
    intro time junk
    obtain ⟨f, hargs, hend⟩ := futexCall_passed hlock huser hpass time junk
    rw [hend, hswitch f hargs junk]
    simp [futexWait, hargs, hword, futexLts, Section.callEnd]
  · apply ErrorsRight.of_error (by rw [herr, if_pos hword])
    intro time junk
    obtain ⟨f, hargs, hend⟩ := futexCall_passed hlock huser hpass time junk
    rw [hend, hswitch f hargs junk]
    simp [futexWait, hargs, hword, futexLts, Section.callEnd]

theorem futexCall_skip {junk : Int}
    (hswitch : ∀ f : Frame, f.args = a → futexSwitch s.queues s.sleepers s.word t f junk = .skip s.queues s.sleepers rc)
    (time : Timespec) :
    futexResult s t a time junk
      = some ⟨s.queues, s.sleepers, none, some rc⟩ := by
  obtain ⟨f, hargs, hend⟩ := futexCall_passed hlock huser hpass time junk
  rw [hend, hswitch f hargs]
  rfl

theorem futexCall_unlink {r : Walked FutexQ σ} {w : Nat} {junk : Int}
    (hswitch : ∀ f : Frame, f.args = a → futexSwitch s.queues s.sleepers s.word t f junk = .unlink s.sleepers r w)
    (time : Timespec) :
    futexResult s t a time junk = (futexLts r.unlinked).map (fun _ =>
      ⟨r.kept, s.sleepers - r.unlinked.length, none, some (BitVec.ofNat 32 w).toInt⟩) := by
  obtain ⟨f, hargs, hend⟩ := futexCall_passed hlock huser hpass time junk
  rw [hend, hswitch f hargs]
  rfl

end

theorem futexCall_unlink_eq_iff {r : Walked FutexQ σ} {w : Nat} :
    (futexLts r.unlinked).map (fun _ =>
        CallEnd.mk r.kept (s.sleepers - r.unlinked.length) none (some (BitVec.ofNat 32 w).toInt))
      = some ⟨s.queues, s.sleepers, none, some rc⟩
    ↔ r.kept = s.queues ∧ r.unlinked = [] ∧ (BitVec.ofNat 32 w).toInt = rc := by
  constructor
  · intro h
    obtain ⟨_, -, h⟩ := Option.map_eq_some_iff.mp h
    simp only [CallEnd.mk.injEq, Option.some.injEq, true_and] at h
    refine ⟨h.1, List.length_eq_zero_iff.mp (by omega), h.2.2⟩
  · rintro ⟨hkept, hnil, hrc⟩
    simp [hnil, hkept, hrc, futexLts]

theorem expectedError_of_flag (word : BitVec 64 → BitVec 32)
    (hflag : a.op &&& FUTEX_CLOCK_REALTIME ≠ 0) (hwait : a.isWait = false) :
    expectedError word a = some (-ENOSYS) := by
  simp only [FutexArgs.isWait, Bool.or_eq_false_iff, decide_eq_false_iff_not] at hwait
  exact if_pos ⟨hflag, hwait⟩

section

variable (hlock : s.lock = none) (huser : (s.lts t).pc = .user) (hpass : a.Passes)

include hlock huser hpass

theorem ErrorsRight.of_skip (rc : Int) (herr : expectedError s.word a = some rc)
    (hswitch : ∀ f : Frame, f.args = a → ∀ junk, futexSwitch s.queues s.sleepers s.word t f junk = .skip s.queues s.sleepers rc) :
    ErrorsRight s t a :=
  ErrorsRight.of_error herr (fun time junk =>
    futexCall_skip hlock huser hpass (fun f hf => hswitch f hf junk) time)

theorem ErrorsRight.of_unlink (hnone : expectedError s.word a = none)
    (hwait : a.isWait = false) (r : Walked FutexQ σ) (w : Nat)
    (hswitch : ∀ f : Frame, f.args = a → ∀ junk, futexSwitch s.queues s.sleepers s.word t f junk = .unlink s.sleepers r w) :
    ErrorsRight s t a := by
  refine ErrorsRight.of_none hnone (fun time junk => congrArg _
    (futexCall_unlink hlock huser hpass (fun f hf => hswitch f hf junk) time)) ?_
  intro hw
  rw [hwait] at hw
  cases hw

theorem errorsRight_of_passes (hflag : a.op &&& FUTEX_CLOCK_REALTIME ≠ 0 → a.isWait = true)
    (hcmp : a.futexOp = .cmpRequeue → s.word a.uaddr = a.val3) : ErrorsRight s t a := by
  have hguard : ¬ (a.op &&& FUTEX_CLOCK_REALTIME ≠ 0 ∧ a.futexOp ≠ .wait
      ∧ a.futexOp ≠ .waitBitset) := by
    rintro ⟨hset, hne⟩
    have hwait := hflag hset
    simp [FutexArgs.isWait, hne] at hwait
  cases hop : a.futexOp with
  | waitBitset =>
    by_cases hval3 : a.val3 = 0#32
    · apply ErrorsRight.of_skip hlock huser hpass (-EINVAL)
      · exact (if_neg hguard).trans (by simp [hop, hval3])
      · intro f hf junk
        simp [futexSwitch, hf, hop, hval3]
    · apply futexWait_errorsRight hlock huser hpass a.val3
      · intro f hf junk
        simp [futexSwitch, hf, hop, hval3]
      · exact (if_neg hguard).trans (by simp [hop, hval3])
  | wait =>
    apply futexWait_errorsRight hlock huser hpass FUTEX_BITSET_MATCH_ANY
    · intro f hf junk
      simp [futexSwitch, hf, hop]
    · exact (if_neg hguard).trans (by simp [hop])
  | wakeBitset =>
    by_cases hval3 : a.val3 = 0#32
    · apply ErrorsRight.of_skip hlock huser hpass (-EINVAL)
      · exact (if_neg hguard).trans (by simp [hop, hval3])
      · intro f hf junk
        simp [futexSwitch, hf, hop, hval3]
    · apply ErrorsRight.of_unlink hlock huser hpass _ (by simp [FutexArgs.isWait, hop])
        (futexWake s.queues a.uaddr a.val a.val3) _
      · intro f hf junk
        simp [futexSwitch, hf, hop, hval3]
        rfl
      · exact (if_neg hguard).trans (by simp [hop, hval3])
  | wake =>
    apply ErrorsRight.of_unlink hlock huser hpass _ (by simp [FutexArgs.isWait, hop])
      (futexWake s.queues a.uaddr a.val FUTEX_BITSET_MATCH_ANY) _
    · intro f hf junk
      simp only [futexSwitch, hf, hop]
      rfl
    · exact (if_neg hguard).trans (by simp [hop])
  | cmpRequeue =>
    apply ErrorsRight.of_unlink hlock huser hpass _ (by simp [FutexArgs.isWait, hop])
      (futexRequeue s.queues a.uaddr a.uaddr2 a.val (a.timeout.setWidth 32)) _
    · intro f hf junk
      simp only [futexSwitch, hf, hop, hcmp hop, ne_eq, not_true_eq_false, if_false]
      rfl
    · exact (if_neg hguard).trans (by simp [hop, hcmp hop])
  | requeue =>
    apply ErrorsRight.of_unlink hlock huser hpass _ (by simp [FutexArgs.isWait, hop])
      (futexRequeue s.queues a.uaddr a.uaddr2 a.val (a.timeout.setWidth 32)) _
    · intro f hf junk
      simp only [futexSwitch, hf, hop]
      rfl
    · exact (if_neg hguard).trans (by simp [hop])
  | invalid =>
    apply ErrorsRight.of_skip hlock huser hpass (-ENOSYS)
    · exact (if_neg hguard).trans (by simp [hop])
    · intro f hf junk
      simp [futexSwitch, hf, hop]

theorem not_errorsRight_of_wake (herr : expectedError s.word a = some (-ENOSYS))
    (bitset : BitVec 32)
    (hswitch : ∀ f : Frame, f.args = a → ∀ junk, futexSwitch s.queues s.sleepers s.word t f junk = .unlink s.sleepers (futexWake s.queues a.uaddr a.val bitset) (futexWake s.queues a.uaddr a.val bitset).acc) :
    ¬ ErrorsRight s t a := by
  intro h
  have hend := h.reported _ herr ⟨0, 0⟩ 0
  rw [futexCall_unlink hlock huser hpass (fun f hf => hswitch f hf 0), futexCall_unlink_eq_iff,
    futexWake_acc] at hend
  obtain ⟨-, hnil, hrc⟩ := hend
  rw [hnil] at hrc
  revert hrc
  decide

end

section

variable (hlock : s.lock = none) (huser : (s.lts t).pc = .user)
  (hflag : a.op &&& FUTEX_CLOCK_REALTIME ≠ 0)

include hlock huser hflag

theorem not_errorsRight_wait (hop : a.futexOp = .wait) : ¬ ErrorsRight s t a := by
  have hpass : ¬ a.Passes := fun h =>
    (FutexArgs.passes_iff (by rw [hop]; rfl)).mp h hflag (by decide)
  have hend := futexCall_refused hlock huser hpass ⟨0, 0⟩ 0
  intro h
  by_cases hword : s.word a.uaddr = a.val
  · -- it should sleep
    have hsleep := h.accepted (by simp [expectedError, hop, hword])
      (by simp [FutexArgs.isWait, hop]) ⟨0, 0⟩ 0
    rw [hend] at hsleep
    cases hsleep
  · have hrc := h.reported (-EAGAIN) (by simp [expectedError, hop, hword]) ⟨0, 0⟩ 0
    rw [hend] at hrc
    revert hrc
    simp [EAGAIN, ENOSYS]

theorem not_errorsRight_wakeBitset (hop : a.futexOp = .wakeBitset) : ¬ ErrorsRight s t a := by
  have hpass : a.Passes := (FutexArgs.passes_iff (by rw [hop]; rfl)).mpr (fun _ => by decide)
  have herr := expectedError_of_flag s.word hflag (by simp [FutexArgs.isWait, hop])
  by_cases hval3 : a.val3 = 0#32
  · intro h
    have hrc := h.reported _ herr ⟨0, 0⟩ 0
    have hskip : ∀ f : Frame, f.args = a → futexSwitch s.queues s.sleepers s.word t f 0
        = .skip s.queues s.sleepers (-EINVAL) := by
      intro f hf
      simp [futexSwitch, hf, hop, hval3]
    rw [futexCall_skip hlock huser hpass hskip] at hrc
    revert hrc
    simp [EINVAL, ENOSYS]
  · apply not_errorsRight_of_wake hlock huser hpass herr a.val3
    intro f hf junk
    simp [futexSwitch, hf, hop, hval3]

theorem errorsRight_requeue_iff (hop : a.futexOp = .requeue) :
    ErrorsRight s t a ↔ RequeueReadsEnosys s a := by
  have hpass : a.Passes := (FutexArgs.passes_iff (by rw [hop]; rfl)).mpr (fun _ => by decide)
  have herr := expectedError_of_flag s.word hflag (by simp [FutexArgs.isWait, hop])
  have hend : ∀ time junk, futexResult s t a time junk
      = some ⟨s.queues, s.sleepers, none, some (-ENOSYS)⟩
        ↔ RequeueReadsEnosys s a := by
    intro time junk
    have hswitch : ∀ f : Frame, f.args = a → futexSwitch s.queues s.sleepers s.word t f junk
        = .unlink s.sleepers
          (futexRequeue s.queues a.uaddr a.uaddr2 a.val (a.timeout.setWidth 32))
          (futexRequeue s.queues a.uaddr a.uaddr2 a.val (a.timeout.setWidth 32)).acc.w := by
      intro f hf
      simp only [futexSwitch, hf, hop]
    rw [futexCall_unlink hlock huser hpass hswitch, futexCall_unlink_eq_iff]
    exact (and_iff_right hop).symm
  constructor
  · intro h
    exact (hend ⟨0, 0⟩ 0).mp (h.reported _ herr ⟨0, 0⟩ 0)
  · intro h
    exact ErrorsRight.of_error herr (fun time junk => (hend time junk).mpr h)

end

end Commands

/-- **Futex errors are reported exactly if** `FUTEX_CLOCK_REALTIME` comes with a command for which
the test of single bits is right, and the comparison of `FUTEX_CMP_REQUEUE` does not fail. -/
theorem futex_errors_reported_iff (s : FutexSys) (t : Lt) (a : FutexArgs) (hlock : s.lock = none)
    (huser : (s.lts t).pc = .user) : ErrorsRight s t a ↔ ErrorsOk s a := by
  unfold ErrorsOk
  by_cases hflag : a.op &&& FUTEX_CLOCK_REALTIME ≠ 0
  · rw [if_pos hflag]
    have herr := expectedError_of_flag s.word hflag
    cases hop : a.futexOp with
    | waitBitset =>
      have hpass : a.Passes := (FutexArgs.passes_iff (by rw [hop]; rfl)).mpr (fun _ => by decide)
      have hright := errorsRight_of_passes hlock huser hpass
        (fun _ => by simp [FutexArgs.isWait, hop]) (fun h => by rw [hop] at h; cases h)
      exact iff_of_true hright (Or.inl rfl)
    | wait =>
      exact iff_of_false (not_errorsRight_wait hlock huser hflag hop)
        (by simp [RequeueReadsEnosys, hop])
    | wakeBitset =>
      exact iff_of_false (not_errorsRight_wakeBitset hlock huser hflag hop)
        (by simp [RequeueReadsEnosys, hop])
    | wake =>
      have hpass : a.Passes := (FutexArgs.passes_iff (by rw [hop]; rfl)).mpr (fun _ => by decide)
      refine iff_of_false ?_ (by simp [RequeueReadsEnosys, hop])
      apply not_errorsRight_of_wake hlock huser hpass (herr (by simp [FutexArgs.isWait, hop]))
        FUTEX_BITSET_MATCH_ANY
      intro f hf junk
      simp only [futexSwitch, hf, hop]
    | cmpRequeue =>
      have hpass : ¬ a.Passes := fun h =>
        (FutexArgs.passes_iff (by rw [hop]; rfl)).mp h hflag (by decide)
      have hright := ErrorsRight.of_error (herr (by simp [FutexArgs.isWait, hop]))
        (futexCall_refused hlock huser hpass)
      exact iff_of_true hright (Or.inr (Or.inl rfl))
    | requeue =>
      rw [errorsRight_requeue_iff hlock huser hflag hop]
      simp
    | invalid =>
      have herr := herr (by simp [FutexArgs.isWait, hop])
      refine iff_of_true ?_ (Or.inr (Or.inr (Or.inl rfl)))
      by_cases hpass : a.Passes
      · apply ErrorsRight.of_skip hlock huser hpass (-ENOSYS) herr
        intro f hf junk
        simp [futexSwitch, hf, hop]
      · exact ErrorsRight.of_error herr (futexCall_refused hlock huser hpass)
  · rw [if_neg hflag]
    have hpass : a.Passes := fun h => absurd h hflag
    constructor
    · intro h hop
      by_contra hword
      -- the uninitialised variable holds 0
      have hskip : ∀ f : Frame, f.args = a → futexSwitch s.queues s.sleepers s.word t f 0
          = .skip s.queues s.sleepers 0 := by
        intro f hf
        simp [futexSwitch, hf, hop, hword]
      have herr : expectedError s.word a = some (-EAGAIN) :=
        (if_neg (fun hset => hflag hset.1)).trans (by simp [hop, hword])
      have hrc := h.reported _ herr ⟨0, 0⟩ 0
      rw [futexCall_skip hlock huser hpass hskip] at hrc
      revert hrc
      simp [EAGAIN]
    · exact errorsRight_of_passes hlock huser hpass (fun h => absurd h hflag)

/-- A wake on an idle system. -/
theorem futex_errors_reported_iff_wake : ErrorsRight FutexSys.idle 0 wakeArgs :=
  (futex_errors_reported_iff FutexSys.idle 0 wakeArgs rfl rfl).mpr (by
    rw [ErrorsOk, if_neg (by decide)]
    decide)

/-- **Three defects**: a failed `FUTEX_CMP_REQUEUE` returns whatever the variable held,
`FUTEX_WAIT` with `FUTEX_CLOCK_REALTIME` is refused and `FUTEX_WAKE` with it is accepted. -/
theorem futex_errors_missed :
    let cmp : FutexArgs := ⟨0x1000, FUTEX_CMP_REQUEUE, 1, 0, ⟨0, 0⟩, 0x2000, 7⟩
    let wait : FutexArgs := { waitArgs with op := FUTEX_WAIT ||| FUTEX_CLOCK_REALTIME }
    let wake : FutexArgs := { wakeArgs with op := FUTEX_WAKE ||| FUTEX_CLOCK_REALTIME }
    (expectedError FutexSys.idle.word cmp = some (-EAGAIN)
        ∧ (futexResult FutexSys.idle 0 cmp ⟨0, 0⟩ 0).map CallEnd.rc = some (some 0)
        ∧ (futexResult FutexSys.idle 0 cmp ⟨0, 0⟩ 5).map CallEnd.rc = some (some 5)
        ∧ ¬ ErrorsRight FutexSys.idle 0 cmp)
      ∧ (expectedError FutexSys.idle.word wait = none
        ∧ (futexResult FutexSys.idle 0 wait ⟨0, 0⟩ 0).map CallEnd.rc = some (some (-ENOSYS))
        ∧ ¬ ErrorsRight FutexSys.idle 0 wait)
      ∧ expectedError FutexSys.idle.word wake = some (-ENOSYS)
        ∧ (futexResult FutexSys.idle 0 wake ⟨0, 0⟩ 0).map CallEnd.rc = some (some 0)
        ∧ ¬ ErrorsRight FutexSys.idle 0 wake := by
  refine ⟨⟨by decide, by decide, by decide, ?_⟩, ⟨by decide, by decide, ?_⟩, by decide, by decide, ?_⟩
  · intro h
    exact absurd (h.determined ⟨0, 0⟩ ⟨0, 0⟩ 0 5) (by decide)
  · intro h
    exact absurd (h.accepted (by decide) (by decide) ⟨0, 0⟩ 0) (by decide)
  · intro h
    exact absurd (congrArg (Option.map CallEnd.rc) (h.reported (-ENOSYS) (by decide) ⟨0, 0⟩ 0))
      (by decide)

end RktIo.Sched
