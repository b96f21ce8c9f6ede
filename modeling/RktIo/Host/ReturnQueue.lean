import RktIo.Host.Callers

/-!
# What the return queue can do to the schedulers

The return queue and the syscall page are host memory. `mpmc_dequeue` may yield any number to
`lthread_run`, and a slot may hold anything. The steps of the enclave are those of
`hostCallStep`; the host writes slots and chooses what the return queue yields.

`slottolthread` looks at the number of the slot only, so whether the right lthread is resumed
is up to the host.
-/

namespace RktIo.Host

open Transition List

/-! ## The system -/

/-- `pending` records the slots that have been submitted by `yield_cb` and that the return queue
has not yielded since. -/
structure UntrustedSys where
  sys : HostCallSys
  pending : List Nat

inductive UntrustedLabel where
  /-- A step of the enclave. -/
  | enclave (l : HostCallLabel)
  /-- The host writes a slot. -/
  | write (i : Nat) (sc : SyscallT)
  /-- `mpmc_dequeue(retq, &s)` yields `i` to scheduler `k`, which resumes `slottolthread(i)`. -/
  | take (k i : Nat)

def HostCallLabel.ofEnclave : HostCallLabel → Bool
  | .resumeSlot _ | .hostTake _ | .hostExec .. | .hostCheck _ | .hostFinish _ => false
  | _ => true

def HostCallSys.submits (s : HostCallSys) : HostCallLabel → List Nat
  | .callback k =>
    match s.cur k with
    | .switched a => [s.syscall (.lthread a)]
    | _ => []
  | _ => []

def untrustedStep (s : UntrustedSys) (l : UntrustedLabel) : Option UntrustedSys :=
  if s.sys.fault = none then
    match l with
    | .enclave l =>
      if l.ofEnclave then
        (hostCallStep s.sys l).map fun sys => ⟨sys, s.pending ++ s.sys.submits l⟩
      else none
    | .write i sc => some { s with sys := s.sys.setSlot i sc }
    | .take k i =>
      if s.sys.inLoop k then some ⟨s.sys.resumeFrom k i, s.pending.erase i⟩ else none
  else none

def UntrustedSys.initial (alwaysSync exitOnHostCalls : Bool) (maxsyscalls : Nat) : UntrustedSys :=
  ⟨HostCallSys.initial alwaysSync exitOnHostCalls maxsyscalls, []⟩

def UntrustedSys.Returnable (s : UntrustedSys) (i : Nat) : Prop :=
  s.sys.maxsyscalls ≤ i ∨ i ∈ s.pending

def YieldsReturnable (s : UntrustedSys) : UntrustedLabel → Prop
  | .take _ i => s.Returnable i
  | _ => True

instance (s : UntrustedSys) (i : Nat) : Decidable (s.Returnable i) :=
  inferInstanceAs (Decidable (_ ∨ _))

instance (s : UntrustedSys) : (l : UntrustedLabel) → Decidable (YieldsReturnable s l)
  | .enclave _ | .write .. => isTrue trivial
  | .take _ i => inferInstanceAs (Decidable (s.Returnable i))

namespace HostCallSys

variable {s s' : HostCallSys} {a b i j k : Nat}

def WaitsOn (s : HostCallSys) (a i : Nat) : Prop :=
  s.created a = true ∧ s.syscall (.lthread a) = i ∧ ∃ next, s.pc (.lthread a) = .waiting next

/-- What `lthread_run` should do with a number from the return queue: crash, or resume an
lthread that waits for this slot and is nowhere else. -/
def ResumesRight (s : HostCallSys) (i : Nat) : Prop :=
  match s.slottolthread i with
  | .error .crash => True
  | .error .null => False
  | .ok a => s.WaitsOn a i ∧ (∀ k, ¬ s.Holds k a) ∧ a ∉ s.schedulerQueue ∧ s.parked a = .no

/-! ## Who waits -/

theorem Callers.waitsOn_slot (hs : s.Callers) (h : s.WaitsOn a i) : s.slottolthread i = .ok a := by
  obtain ⟨hcr, rfl, -⟩ := h
  have hal : s.Alive (.lthread a) := hcr
  simp [slottolthread, (hs.slots.used _ hal).2, hs.slots.lthread a hcr]

theorem Callers.waitsOn_nowhere (hs : s.Callers) (h : s.WaitsOn a i) :
    (∀ k, ¬ s.Holds k a) ∧ a ∉ s.schedulerQueue ∧ s.parked a = .no := by
  obtain ⟨-, -, next, hpc⟩ := h
  obtain ⟨hno, hqueued, hheld⟩ := (hs.places.placeOf a).of_waiting hpc
  exact ⟨hheld, hqueued, hno⟩

theorem waitsOn_congr (hcr : s'.created = s.created) (hsys : s'.syscall = s.syscall)
    (hpc : s'.pc = s.pc) : s'.WaitsOn a i ↔ s.WaitsOn a i := by
  simp only [WaitsOn, hcr, hsys, hpc]

theorem Callers.waitsOn_wrapper (hs : s.Callers) {c : Caller} {pc : CallPc}
    (hk : s.caller k = some c) (hw : ∀ n, pc ≠ .waiting n) (hcr : s'.created = s.created)
    (hsys : s'.syscall = s.syscall) (hpc : s'.pc = Function.update s.pc c pc) :
    s'.WaitsOn a i ↔ s.WaitsOn a i := by
  have hold := (hs.caller hk).2.2
  simp only [WaitsOn, hcr, hsys, hpc]
  by_cases hc : Caller.lthread a = c
  · subst hc
    simp [hold, hw]
  · rw [Function.update_of_ne hc]

/-- **Only `yield_cb` makes an lthread wait** among the steps of the enclave. -/
theorem Callers.waitsOn_step (hs : s.Callers) {l : HostCallLabel} (hl : l.ofEnclave = true)
    (hsub : ∀ k, l ≠ .callback k) (h : hostCallStep s l = some s') :
    s'.WaitsOn a i ↔ s.WaitsOn a i := by
  cases l with
  | resumeSlot k | hostTake t | hostExec t ret | hostCheck t | hostFinish t => cases hl
  | callback k => exact absurd rfl (hsub k)
  | start k n =>
    obtain ⟨-, ⟨⟩⟩ := Option.ite_none_right_eq_some.mp h
    simp [WaitsOn, setCur]
  | create b n =>
    obtain ⟨⟨hnew, -⟩, ⟨⟩⟩ := Option.ite_none_right_eq_some.mp h
    have hidle := hs.places.free b hnew
    by_cases hb : a = b
    · subst hb
      simp [WaitsOn, hidle]
    · simp [WaitsOn, hb]
  | free b =>
    obtain ⟨hexit, ⟨⟩⟩ := Option.ite_none_right_eq_some.mp h
    have hidle := (hs.places.parked b (by simp [hexit])).2.1
    by_cases hb : a = b
    · subst hb
      simp [WaitsOn, hidle]
    · simp [WaitsOn, hb]
  | yield k | sleep k | exit k | pin k n =>
    obtain ⟨b, -, rfl⟩ := Option.map_eq_some_iff.mp h
    exact waitsOn_congr rfl rfl rfl
  | wake b =>
    obtain ⟨-, ⟨⟩⟩ := Option.ite_none_right_eq_some.mp h
    exact waitsOn_congr rfl rfl rfl
  | resume k =>
    simp only [hostCallStep, Option.ite_none_right_eq_some] at h
    obtain ⟨-, h⟩ := h
    split at h <;> cases h
    exact waitsOn_congr rfl rfl rfl
  | call k req grow =>
    obtain ⟨c, hk, h⟩ := Option.bind_eq_some_iff.mp h
    cases hpc : s.pc c <;> simp only [hpc, reduceCtorEq, Option.some.injEq] at h
    subst h
    refine hs.waitsOn_wrapper hk ?_ rfl rfl rfl
    cases grow <;> simp
  | go k =>
    obtain ⟨c, hk, h⟩ := Option.bind_eq_some_iff.mp h
    rcases callStep_cases h with ⟨b, next, rfl, -, -, rfl⟩ | ⟨hframe, pc, -, hw, hpc⟩
    · exact hs.waitsOn_wrapper hk (by simp) rfl rfl rfl
    · exact hs.waitsOn_wrapper hk hw hframe.created hframe.syscall hpc
  | hostExit k ret =>
    obtain ⟨c, hk, h⟩ := Option.bind_eq_some_iff.mp h
    cases hpc : s.pc c <;> simp only [hpc, reduceCtorEq, Option.some.injEq] at h
    subst h
    exact hs.waitsOn_wrapper hk (by simp) rfl rfl rfl

theorem Callers.waitsOn_callback (hs : s.Callers)
    (h : hostCallStep s (.callback k) = some s') :
    ∃ b, s.created b = true ∧ s.submits (.callback k) = [s.syscall (.lthread b)] ∧
      (∀ j, ¬ s.WaitsOn b j) ∧
      ∀ a i, s'.WaitsOn a i ↔ s.WaitsOn a i ∨ a = b ∧ i = s.syscall (.lthread b) := by
  obtain ⟨b, next, hsw, hcr, hpc, rfl⟩ := callback_cases hs h
  refine ⟨b, hcr, by simp [submits, hsw], ?_, ?_⟩
  · rintro j ⟨-, -, n, hn⟩
    cases hpc.symm.trans hn
  · intro a i
    by_cases hab : a = b
    · subst hab
      simp [WaitsOn, setCur, setPc, hcr, hpc, eq_comm]
    · simp [WaitsOn, setCur, setPc, hab]

theorem waitsOn_resumeFrom (hslot : s.slottolthread i = .ok b) :
    (s.resumeFrom k i).WaitsOn a j ↔ s.WaitsOn a j ∧ a ≠ b := by
  simp only [resumeFrom, hslot, setCur, setRecord]
  split
  · rename_i next hpc
    by_cases hab : a = b
    · subst hab
      simp [WaitsOn, setPc]
    · simp [WaitsOn, setPc, hab]
  · rename_i hpc
    by_cases hab : a = b
    · subst hab
      refine ⟨?_, fun h => absurd rfl h.2⟩
      rintro ⟨-, -, next, hw⟩
      exact (hpc next hw).elim
    · simp [WaitsOn, hab]

end HostCallSys

/-! ## Runs -/

structure UntrustedSys.Inv (s : UntrustedSys) : Prop where
  callers : s.sys.Callers
  nodup : s.pending.Nodup
  pending : ∀ i, i ∈ s.pending ↔ ∃ a, s.sys.WaitsOn a i

namespace UntrustedSys.Inv

open HostCallSys

variable {s s' : UntrustedSys}

theorem enclave (hs : s.Inv) {l : HostCallLabel} {sys : HostCallSys} (hl : l.ofEnclave = true)
    (h : hostCallStep s.sys l = some sys) : Inv ⟨sys, s.pending ++ s.sys.submits l⟩ := by
  have hcallers : sys.Callers := hs.callers.step (by rintro k rfl; cases hl) h
  by_cases hsub : ∃ k, l = .callback k
  · obtain ⟨k, rfl⟩ := hsub
    obtain ⟨b, hcr, heq, hnew, hwaits⟩ := hs.callers.waitsOn_callback h
    -- nobody waited on the slot that is submitted, since its owner did not
    have hfresh : s.sys.syscall (.lthread b) ∉ s.pending := by
      intro hmem
      obtain ⟨a, ha⟩ := (hs.pending _).mp hmem
      cases hs.callers.slots.owner (.lthread a) (.lthread b) ha.1 hcr ha.2.1
      exact hnew _ ha
    refine ⟨hcallers, ?_, ?_⟩
    · rw [heq]
      exact nodup_append.mpr ⟨hs.nodup, nodup_singleton _, by
        rintro i hi j hj rfl
        exact hfresh (mem_singleton.mp hj ▸ hi)⟩
    · intro i
      simp only [heq, mem_append, hs.pending i, mem_singleton, hwaits]
      constructor
      · rintro (⟨a, ha⟩ | rfl)
        · exact ⟨a, .inl ha⟩
        · exact ⟨b, .inr ⟨rfl, rfl⟩⟩
      · rintro ⟨a, ha | ⟨-, rfl⟩⟩
        · exact .inl ⟨a, ha⟩
        · exact .inr rfl
  · push Not at hsub
    have hnone : s.sys.submits l = [] := by
      cases l <;> first | rfl | exact absurd rfl (hsub _)
    refine ⟨hcallers, by simpa [hnone] using hs.nodup, fun i => ?_⟩
    simp only [hnone, append_nil, hs.pending i]
    exact exists_congr (fun a => (hs.callers.waitsOn_step hl hsub h).symm)

theorem slottolthread_eq_crash {s : HostCallSys} {i : Nat} (h : s.maxsyscalls ≤ i) :
    s.slottolthread i = .error .crash := by
  simp [slottolthread, Nat.not_lt.mpr h]

theorem resumesRight_iff (hs : s.Inv) (i : Nat) : s.sys.ResumesRight i ↔ s.Returnable i := by
  constructor
  · intro h
    by_cases hi : s.sys.maxsyscalls ≤ i
    · exact .inl hi
    · refine .inr ((hs.pending i).mpr ?_)
      unfold ResumesRight at h
      split at h
      · rename_i hcrash
        simp only [slottolthread, Nat.lt_of_not_le hi, if_true] at hcrash
        split at hcrash <;> cases hcrash
      · exact h.elim
      · exact ⟨_, h.1⟩
  · rintro (hi | hi)
    · simp [ResumesRight, slottolthread_eq_crash hi]
    · obtain ⟨a, ha⟩ := (hs.pending i).mp hi
      simp only [ResumesRight, hs.callers.waitsOn_slot ha]
      exact ⟨ha, hs.callers.waitsOn_nowhere ha⟩

theorem take (hs : s.Inv) {k i : Nat} (hk : s.sys.inLoop k = true) (hi : s.Returnable i) :
    Inv ⟨s.sys.resumeFrom k i, s.pending.erase i⟩ := by
  obtain ⟨hown, hidle⟩ := inLoop_eq_true hk
  rcases hi with hi | hi
  · -- a crash leaves everything as it is
    have hsys : s.sys.resumeFrom k i = { s.sys with fault := some .crash } := by
      simp [resumeFrom, slottolthread_eq_crash hi]
    have hnot : i ∉ s.pending := by
      intro hmem
      obtain ⟨a, ha⟩ := (hs.pending i).mp hmem
      cases (slottolthread_eq_crash hi).symm.trans (hs.callers.waitsOn_slot ha)
    rw [hsys, erase_of_not_mem hnot]
    exact ⟨hs.callers.congr ⟨rfl, rfl, rfl, rfl, rfl, rfl, rfl, rfl⟩ rfl, hs.nodup, hs.pending⟩
  · obtain ⟨a, ha⟩ := (hs.pending i).mp hi
    have hslot := hs.callers.waitsOn_slot ha
    obtain ⟨hcr, hsys, next, hpc⟩ := id ha
    refine ⟨hs.callers.resumeFrom hown hidle hslot hcr hpc, hs.nodup.erase i, fun j => ?_⟩
    simp only [hs.nodup.mem_erase_iff, hs.pending j, waitsOn_resumeFrom hslot]
    constructor
    · rintro ⟨hne, b, hb⟩
      refine ⟨b, hb, ?_⟩
      rintro rfl
      exact hne (hb.2.1.symm.trans hsys)
    · rintro ⟨b, hb, hne⟩
      refine ⟨?_, b, hb⟩
      rintro rfl
      cases hs.callers.slots.owner (.lthread b) (.lthread a) hb.1 hcr (hb.2.1.trans hsys.symm)
      exact hne rfl

theorem step (hs : s.Inv) (l : UntrustedLabel) (hok : YieldsReturnable s l)
    (h : untrustedStep s l = some s') : s'.Inv := by
  simp only [untrustedStep, Option.ite_none_right_eq_some] at h
  obtain ⟨-, h⟩ := h
  cases l with
  | enclave l =>
    simp only [Option.ite_none_right_eq_some] at h
    obtain ⟨hl, h⟩ := h
    obtain ⟨sys, hsys, rfl⟩ := Option.map_eq_some_iff.mp h
    exact hs.enclave hl hsys
  | write i sc =>
    cases h
    exact ⟨hs.callers.congr ⟨rfl, rfl, rfl, rfl, rfl, rfl, rfl, rfl⟩ rfl, hs.nodup, hs.pending⟩
  | take k i =>
    simp only [Option.ite_none_right_eq_some, Option.some.injEq] at h
    obtain ⟨hk, rfl⟩ := h
    exact hs.take hk hok

end UntrustedSys.Inv

/-- **What the return queue may yield.** In a run in which it has yielded only numbers that are
no slot, or slots submitted by an asynchronous call and not returned since, the next number
crashes the enclave or resumes an lthread that waits for it exactly if it is such a number
again. -/
theorem return_queue_resumes_right (alwaysSync exitOnHostCalls : Bool) (maxsyscalls : Nat)
    {s : UntrustedSys} (h : Reaches untrustedStep YieldsReturnable
      (UntrustedSys.initial alwaysSync exitOnHostCalls maxsyscalls) s) (i : Nat) :
    s.sys.ResumesRight i ↔ s.Returnable i := by
  have hinv : s.Inv := by
    refine h.invariant UntrustedSys.Inv (fun s l s' hs hok hstep => hs.step l hok hstep) ?_
    refine ⟨HostCallSys.callers_initial _ _ _, List.nodup_nil, ?_⟩
    simp [UntrustedSys.initial, HostCallSys.initial, HostCallSys.WaitsOn]
  exact hinv.resumesRight_iff i

def returnRun : List UntrustedLabel :=
  [.enclave (.start 0 0), .enclave (.create 7 1), .enclave (.resume 0),
    .enclave (.call 0 ⟨0, [3]⟩ none), .enclave (.go 0), .enclave (.go 0), .enclave (.callback 0)]

theorem return_queue_resumes_right_submitted : ∃ s : UntrustedSys, s.pending = [1] ∧
    s.sys.ResumesRight 1 ∧ ¬ s.sys.ResumesRight 0 ∧ s.sys.ResumesRight 2 := by
  have hrun : (exec untrustedStep YieldsReturnable (UntrustedSys.initial false false 2)
      returnRun).map (fun s => (s.pending, s.sys.maxsyscalls)) = some ([1], 2) := by
    decide +kernel
  obtain ⟨s, hexec, hs⟩ := Option.map_eq_some_iff.mp hrun
  obtain ⟨hpending, hmax⟩ := Prod.mk.injEq .. ▸ hs
  have hiff := return_queue_resumes_right false false 2 (exec_reaches returnRun hexec)
  refine ⟨s, hpending, ?_, ?_, ?_⟩
  all_goals rw [hiff]; simp [UntrustedSys.Returnable, hpending, hmax]

/-- **The return queue can have anyone resumed**: an lthread that sleeps, one that runs on
another scheduler, and NULL for the slot of a scheduler. -/
theorem return_queue_resumes_anyone :
    (∃ s, Reaches untrustedStep (fun _ _ => True) (UntrustedSys.initial false false 3) s ∧
      s.sys.parked 7 = .asleep ∧ s.sys.cur 0 = .running 7) ∧
    (∃ s, Reaches untrustedStep (fun _ _ => True) (UntrustedSys.initial false false 3) s ∧
      s.sys.cur 0 = .running 7 ∧ s.sys.cur 1 = .running 7) ∧
    ∃ s, Reaches untrustedStep (fun _ _ => True) (UntrustedSys.initial false false 3) s ∧
      s.sys.fault = some .null := by
  refine ⟨?_, ?_, ?_⟩
  · exact ⟨_, exec_reaches [.enclave (.start 0 0), .enclave (.create 7 1), .enclave (.resume 0),
      .enclave (.sleep 0), .take 0 1] rfl, rfl, rfl⟩
  · exact ⟨_, exec_reaches [.enclave (.start 0 0), .enclave (.start 1 2), .enclave (.create 7 1),
      .enclave (.resume 0), .take 1 1] rfl, rfl, rfl⟩
  · exact ⟨_, exec_reaches [.enclave (.start 0 0), .take 0 0] rfl, rfl⟩

end RktIo.Host
