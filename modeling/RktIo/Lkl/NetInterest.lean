import RktIo.Lib.Transition
import RktIo.Lkl.NetPolling

/-!
# Polling loses no interest

Every answer of the host is taken into account; all that is assumed is that a write to the pipe
writes its byte.
-/

namespace RktIo.Lkl.NetPolling

open Transition

/-! ## Interest -/

def Reliable (s : NetDev) : Step → Prop
  | .transfer dir a => s.routine dir = .notify → a.ret = 1
  | _ => True

instance (s : NetDev) (l : Step) : Decidable (Reliable s l) := by
  unfold Reliable
  split <;> infer_instance

def Dir.returnedBy : Dir → NetPoll → Bool
  | .tx, ret => ret.tx
  | .rx, ret => ret.rx

def Dir.event : Dir → BitVec 16
  | .tx => POLLOUT
  | .rx => POLLIN

def Waiting (dir : Dir) : List Note → Prop
  | [] => False
  | .again dir' :: seen => dir' = dir ∨ Waiting dir seen
  | .polled ret :: seen => dir.returnedBy ret = false ∧ Waiting dir seen

def Poll.result : Poll → Option NetPoll
  | .clearRx revents =>
    some { rx := revents &&& (POLLIN ||| POLLPRI) ≠ 0, tx := revents &&& POLLOUT ≠ 0 }
  | .clearTx revents ret => some { ret with tx := ret.tx || revents &&& POLLOUT ≠ 0 }
  | .returning ret => some ret
  | _ => none

def Poll.remaining : Poll → Nat
  | .clearRx _ => 3
  | .clearTx _ _ => 2
  | .returning _ => 1
  | _ => 0

def Poll.WillReturn (dir : Dir) (p : Poll) : Prop :=
  ∃ ret, p.result = some ret ∧ dir.returnedBy ret = true

def Poll.Overlooks (dir : Dir) : Poll → Prop
  | .readTx events => dir = .rx ∧ events &&& POLLIN = 0
  | .blocked events => events &&& dir.event = 0
  | _ => False

/-! ## Steps of poll -/

theorem or_and_mask {w : Nat} (x mask : BitVec w) : (x ||| mask) &&& mask = mask := by
  ext i hi
  simp only [BitVec.getElem_and, BitVec.getElem_or]
  cases mask[i] <;> simp

section PollStep

variable {a : HostAnswer} {s s' : NetDev} {dir : Dir}

/-- **What poll returns is settled** when it comes to the variables: the next step, which does not
wait for anything, keeps it and comes closer to the end, or returns it. -/
theorem result_pollStep {ret : NetPoll} (hres : s.poll.result = some ret) (a : HostAnswer) :
    ∃ s', pollStep a s = some s' ∧ (s'.seen = .polled ret :: s.seen
      ∨ (s'.poll.result = some ret ∧ s'.poll.remaining < s.poll.remaining)) := by
  cases hpoll : s.poll with
  | clearRx revents =>
    rw [hpoll] at hres
    simp only [pollStep, hpoll]
    split
    · exact ⟨_, rfl, Or.inr ⟨by simp_all [Poll.result], Nat.lt_succ_self _⟩⟩
    · exact ⟨_, rfl, Or.inr ⟨by simp_all [Poll.result], Nat.lt_succ_self _⟩⟩
  | clearTx revents ret' =>
    rw [hpoll] at hres
    simp only [pollStep, hpoll]
    cases ret'
    split
    · exact ⟨_, rfl, Or.inr ⟨by simp_all [Poll.result], Nat.lt_succ_self _⟩⟩
    · exact ⟨_, rfl, Or.inr ⟨by simp_all [Poll.result], Nat.lt_succ_self _⟩⟩
  | returning ret' =>
    rw [hpoll] at hres
    simp only [pollStep, hpoll]
    cases hres
    exact ⟨_, rfl, Or.inl rfl⟩
  | _ =>
    rw [hpoll] at hres
    cases hres

section

variable (hstep : pollStep a s = some s')

include hstep

theorem pollStep_rest :
    s'.tx = s.tx ∧ s'.rx = s.rx
      ∧ (s'.seen = s.seen ∨ ∃ ret, s'.seen = .polled ret :: s.seen) := by
  unfold pollStep at hstep
  repeat' split at hstep
  all_goals cases hstep
  all_goals simp [NetDev.fprintf]

theorem routine_pollStep : s'.routine dir = s.routine dir := by
  obtain ⟨htx, hrx, -⟩ := pollStep_rest hstep
  cases dir
  · exact htx
  · exact hrx

theorem waiting_pollStep (h : Waiting dir s'.seen) : Waiting dir s.seen := by
  obtain ⟨-, -, hsame | ⟨ret, hpolled⟩⟩ := pollStep_rest hstep
  · rw [hsame] at h
    exact h
  · rw [hpolled] at h
    exact h.2

end

theorem flag_pollStep (dir : Dir) (hstep : pollStep a s = some s') :
    s'.flag dir = s.flag dir ∨ s'.poll.WillReturn dir := by
  cases hpoll : s.poll with
  | clearRx revents =>
    simp only [pollStep, hpoll] at hstep
    split at hstep <;> cases hstep
    · cases dir with
      | tx => exact Or.inl rfl
      | rx =>
        right
        refine ⟨_, rfl, ?_⟩
        rfl
    · exact Or.inl (by cases dir <;> rfl)
  | clearTx revents ret =>
    simp only [pollStep, hpoll] at hstep
    split at hstep <;> cases hstep
    · cases dir with
      | tx =>
        right
        refine ⟨_, rfl, ?_⟩
        rfl
      | rx => exact Or.inl rfl
    · exact Or.inl (by cases dir <;> rfl)
  | _ =>
    left
    simp only [pollStep, hpoll] at hstep
    repeat' split at hstep
    all_goals cases hstep
    all_goals cases dir <;> rfl

theorem overlooks_pollStep (hstep : pollStep a s = some s') (h : s'.poll.Overlooks dir) :
    s'.pipe = s.pipe ∧ (s.poll.Overlooks dir ∨ (s.flag dir = false ∧ s.poll.result = none)) := by
  cases hpoll : s.poll with
  | readRx =>
    simp only [pollStep, hpoll] at hstep
    cases hstep
    obtain ⟨rfl, hnot⟩ := h
    refine ⟨rfl, Or.inr ⟨?_, rfl⟩⟩
    show s.nd.pollRx = false
    refine Bool.eq_false_iff.mpr ?_
    intro hset
    rw [if_pos hset] at hnot
    exact absurd hnot (by decide)
  | readTx events =>
    simp only [pollStep, hpoll] at hstep
    cases hstep
    refine ⟨rfl, ?_⟩
    have hmask : (if s.nd.pollTx then events ||| POLLOUT else events) &&& dir.event = 0 := h
    split at hmask
    · cases dir with
      | tx =>
        rw [Dir.event, or_and_mask] at hmask
        exact absurd hmask (by decide)
      | rx =>
        -- the event of the other direction does not matter
        rw [Dir.event, BitVec.and_or_distrib_right] at hmask
        exact Or.inl ⟨rfl, (BitVec.or_eq_zero_iff.mp hmask).1⟩
    · rename_i hset
      cases dir with
      | tx => exact Or.inr ⟨Bool.eq_false_iff.mpr hset, rfl⟩
      | rx => exact Or.inl ⟨rfl, hmask⟩
  | blocked events =>
    simp only [pollStep, hpoll] at hstep
    split at hstep
    · cases hstep
      rw [hpoll] at h
      exact ⟨rfl, Or.inl h⟩
    · -- once answered, poll does not overlook anything
      repeat' split at hstep
      all_goals
        cases hstep
        cases h
  | idle =>
    simp only [pollStep, hpoll] at hstep
    cases hstep
  | _ =>
    simp only [pollStep, hpoll] at hstep
    repeat' split at hstep
    all_goals
      cases hstep
      cases h

end PollStep

/-! ## The invariant -/

def Routine.AboutToWrite (r : Routine) : Prop := r = .setFlag ∨ r = .notify

/-- **No interest of a direction is lost**: it is noticed, and a poll that overlooks it wakes up. -/
structure Attentive (dir : Dir) (s : NetDev) : Prop where
  noticed : Waiting dir s.seen →
    s.flag dir = true ∨ s.poll.WillReturn dir ∨ s.routine dir = .setFlag
  wakes : Waiting dir s.seen → s.poll.Overlooks dir → 0 < s.pipe ∨ (s.routine dir).AboutToWrite

section Invariant

variable {s s' : NetDev} {dir : Dir}

theorem Attentive.pollStep {a : HostAnswer} (h : Attentive dir s) (hstep : pollStep a s = some s') :
    Attentive dir s' where
  noticed := by
    intro hwait
    rw [routine_pollStep hstep]
    rcases h.noticed (waiting_pollStep hstep hwait) with hset | ⟨ret, hres, hflag⟩ | hbefore
    · rcases flag_pollStep dir hstep with hsame | hwill
      · exact Or.inl (hsame.trans hset)
      · exact Or.inr (Or.inl hwill)
    · obtain ⟨s'', hstep', hseen | ⟨hres', -⟩⟩ := result_pollStep hres a
      · -- the flag has been returned, so nothing waits any more
        obtain rfl : s' = s'' := Option.some.inj (hstep.symm.trans hstep')
        rw [hseen] at hwait
        exact absurd (hwait.1.symm.trans hflag) (by decide)
      · obtain rfl : s' = s'' := Option.some.inj (hstep.symm.trans hstep')
        exact Or.inr (Or.inl ⟨ret, hres', hflag⟩)
    · exact Or.inr (Or.inr hbefore)
  wakes := by
    intro hwait hover
    rw [routine_pollStep hstep]
    obtain ⟨hpipe, hover' | ⟨hzero, hnone⟩⟩ := overlooks_pollStep hstep hover
    · rw [hpipe]
      exact h.wakes (waiting_pollStep hstep hwait) hover'
    · -- the variable has been read as zero: the routine has yet to set it
      rcases h.noticed (waiting_pollStep hstep hwait) with hset | ⟨ret, hres, -⟩ | hbefore
      · rw [hzero] at hset
        cases hset
      · rw [hnone] at hres
        cases hres
      · exact Or.inr (Or.inl hbefore)

theorem Attentive.of_kept (h : Attentive dir s) (hpoll : s'.poll = s.poll)
    (hseen : Waiting dir s'.seen → Waiting dir s.seen) (hflag : s'.flag dir = s.flag dir)
    (hpipe : s.pipe ≤ s'.pipe) (hset : s.routine dir = .setFlag → s'.routine dir = .setFlag)
    (hwrite : (s.routine dir).AboutToWrite → 0 < s'.pipe ∨ (s'.routine dir).AboutToWrite) :
    Attentive dir s' where
  noticed := by
    intro hwait
    rw [hflag, hpoll]
    exact (h.noticed (hseen hwait)).imp_right (Or.imp_right hset)
  wakes := by
    intro hwait hover
    rw [hpoll] at hover
    rcases h.wakes (hseen hwait) hover with hpos | habout
    · exact Or.inl (hpos.trans_le hpipe)
    · exact hwrite habout

theorem transferStep_rest (dir : Dir) {t : Transfer} {a : HostAnswer}
    (hstep : transferStep t a s = some s') :
    s'.poll = s.poll ∧ s.pipe ≤ s'.pipe ∧ (dir ≠ t.dir →
      s'.flag dir = s.flag dir ∧ s'.routine dir = s.routine dir
        ∧ (Waiting dir s'.seen → Waiting dir s.seen)) := by
  have hagain : dir ≠ t.dir → Waiting dir (.again t.dir :: s.seen) → Waiting dir s.seen := by
    intro hne hwait
    exact hwait.resolve_left hne.symm
  unfold transferStep at hstep
  repeat' split at hstep
  all_goals cases hstep
  all_goals simp +contextual [hagain]

theorem Attentive.own_transferStep {t : Transfer} {a : HostAnswer} (h : Attentive t.dir s)
    (hreliable : s.routine t.dir = .notify → a.ret = 1)
    (hstep : NetPolling.transferStep t a s = some s') : Attentive t.dir s' := by
  obtain ⟨hpoll, hpipe, -⟩ := transferStep_rest t.dir hstep
  cases hroutine : s.routine t.dir with
  | idle =>
    simp only [NetPolling.transferStep, hroutine] at hstep
    cases hstep
  | transfer =>
    simp only [NetPolling.transferStep, hroutine] at hstep
    split at hstep
    · cases hstep
      exact h
    split at hstep
    · split at hstep
      · cases hstep
        refine h.of_kept hpoll ?_ ?_ hpipe ?_ ?_
        all_goals simp [hroutine, Routine.AboutToWrite]
      · cases hstep
        refine ⟨fun _ => Or.inr (Or.inr ?_), fun _ _ => Or.inr (Or.inl ?_)⟩
        · simp
        · simp
    · cases hstep
      refine h.of_kept hpoll ?_ ?_ hpipe ?_ ?_
      all_goals simp [hroutine, Routine.AboutToWrite]
  | setFlag =>
    simp only [NetPolling.transferStep, hroutine] at hstep
    cases hstep
    refine ⟨fun _ => Or.inl ?_, fun _ _ => Or.inr (Or.inr ?_)⟩
    · simp
    · simp
  | notify =>
    have hone := hreliable hroutine
    simp only [NetPolling.transferStep, hroutine, hone] at hstep
    cases hstep
    refine h.of_kept hpoll ?_ ?_ hpipe ?_ (fun _ => Or.inl ?_)
    · split <;> simp
    · split <;> simp
    · simp [hroutine]
    · split <;> simp
  | returning ret =>
    simp only [NetPolling.transferStep, hroutine] at hstep
    cases hstep
    refine h.of_kept hpoll ?_ ?_ hpipe ?_ ?_
    all_goals simp [hroutine, Routine.AboutToWrite]

/-- **One step keeps the invariant**, whoever takes it. -/
theorem Attentive.step {l : Step} (h : Attentive dir s) (hok : Reliable s l)
    (hstep : step s l = some s') : Attentive dir s' := by
  cases l with
  | call d =>
    simp only [NetPolling.step] at hstep
    split at hstep
    · rename_i hidle
      cases hstep
      -- a routine that is called was not about to do anything
      refine h.of_kept ?_ ?_ ?_ ?_ ?_ ?_
      all_goals rcases eq_or_ne dir d with rfl | hne
      all_goals simp_all [Routine.AboutToWrite]
    · cases hstep
  | transfer d a =>
    have hok : s.routine (transferOf d).dir = .notify → a.ret = 1 := by
      rw [dir_transferOf]
      exact hok
    rcases eq_or_ne dir (transferOf d).dir with rfl | hne
    · exact h.own_transferStep hok hstep
    · obtain ⟨hpoll, hpipe, hother⟩ := transferStep_rest dir hstep
      obtain ⟨hflag, hroutine, hseen⟩ := hother hne
      exact h.of_kept hpoll hseen hflag hpipe (fun hset => hroutine.trans hset)
        (fun habout => Or.inr (hroutine ▸ habout))
  | callPoll =>
    simp only [NetPolling.step] at hstep
    split at hstep
    · rename_i hidle
      cases hstep
      refine ⟨?_, fun _ hover => hover.elim⟩
      intro hwait
      rcases h.noticed hwait with hset | ⟨ret, hres, -⟩ | hbefore
      · exact Or.inl (by cases dir <;> exact hset)
      · rw [hidle] at hres
        cases hres
      · exact Or.inr (Or.inr (by cases dir <;> exact hbefore))
    · cases hstep
  | poll a => exact h.pollStep hstep

end Invariant

/-- **No interest is lost.** In every interleaving of a transmit, a receive and a poll routine of
one device, whatever the host answers as long as the pipe is reliable: after a transfer that ended
with `-EAGAIN`, until poll returns its flag, its variable is 1, or a call of poll that is going to
return the flag is in progress, or the routine is just before setting the variable; and while poll
is blocked without its event in the mask, there is an unread byte in the pipe, or the routine is
about to write one. -/
theorem interest_kept (nd : LklNetdevFd) (s : NetDev)
    (h : Reaches step Reliable { nd := nd } s) (dir : Dir) (hwait : Waiting dir s.seen) :
    (s.flag dir = true ∨ s.poll.WillReturn dir ∨ s.routine dir = .setFlag)
      ∧ ∀ events, s.poll = .blocked events → events &&& dir.event = 0 →
          0 < s.pipe ∨ (s.routine dir).AboutToWrite := by
  have hinit : Attentive dir { nd := nd } := ⟨False.elim, False.elim⟩
  have hinv : Attentive dir s :=
    h.invariant (Attentive dir) (fun s l s' hs hok hstep => hs.step hok hstep) hinit
  refine ⟨hinv.noticed hwait, ?_⟩
  intro events hblocked hmask
  refine hinv.wakes hwait ?_
  rw [hblocked]
  exact hmask

def freshNet : LklNetdevFd :=
  { fd := 3, pollTx := false, pollRx := false, pipe0 := 4, pipe1 := 5, waitOnIo := false }

def lateTransmit : List Step :=
  [.callPoll, .poll { retVal := 0 }, .poll { retVal := 0 }, .call .tx,
    .transfer .tx { retVal := -11 }, .transfer .tx { retVal := 0 }, .transfer .tx { retVal := 1 }]

def afterLateTransmit : NetDev where
  nd := { freshNet with pollTx := true }
  pipe := 1
  tx := .returning (-EAGAIN)
  poll := .blocked 0
  seen := [.again .tx]

theorem interest_kept_late :
    exec step Reliable { nd := freshNet } lateTransmit = some afterLateTransmit
      ∧ Waiting .tx afterLateTransmit.seen
      ∧ (0 < afterLateTransmit.pipe ∨ (afterLateTransmit.routine .tx).AboutToWrite) := by
  have hexec : exec step Reliable { nd := freshNet } lateTransmit = some afterLateTransmit := by
    decide +kernel
  have hwait : Waiting .tx afterLateTransmit.seen := Or.inl rfl
  have hkept := interest_kept freshNet afterLateTransmit (exec_reaches lateTransmit hexec) .tx hwait
  exact ⟨hexec, hwait, hkept.2 0 rfl rfl⟩

end RktIo.Lkl.NetPolling
