import RktIo.Host.InFlight

/-!
# Every host call delivers its result to its caller
-/

namespace RktIo.Host

open Transition Function

variable {i k h : Nat} {c : Caller}

namespace HostCallSys

variable {s s' : HostCallSys} {tok : Nat → Token}

/-- Every caller is at a point of a wrapper that `CallOk` describes, and a slot without an
owner is at rest. -/
structure Calls (s : HostCallSys) (tok : Nat → Token) : Prop where
  ok : ∀ c, s.Alive c →
    CallOk c (s.pc c) (s.slots (s.syscall c)) (s.record (s.syscall c)) (tok (s.syscall c))
  rest : ∀ i, (∀ c, s.Alive c → s.syscall c ≠ i) → tok i = .absent ∧ (s.slots i).status = 0

structure Inv (s : HostCallSys) (tok : Nat → Token) : Prop where
  callers : s.Callers
  tokens : s.Tokens tok
  calls : s.Calls tok
  history : ∀ rv ∈ s.history, rv.1.Delivered rv.2
  sound : s.fault = none

theorem inv_initial (alwaysSync exitOnHostCalls : Bool) (maxsyscalls : Nat) :
    (initial alwaysSync exitOnHostCalls maxsyscalls).Inv (fun _ => .absent) where
  callers := callers_initial _ _ _
  tokens := by constructor <;> simp [initial]
  calls := by
    constructor
    · intro c hc
      exact ⟨rfl, rfl⟩
    · intro i hi
      exact ⟨rfl, rfl⟩
  history := by simp [initial]
  sound := rfl

/-! ## Calls -/

theorem Calls.exists_owner (h : s.Calls tok) (hi : tok i ≠ .absent) :
    ∃ c, s.Alive c ∧ s.syscall c = i := by
  by_contra hno
  push Not at hno
  exact hi (h.rest i hno).1

theorem Calls.update {tok' : Nat → Token} (h : s.Calls tok) (hs : s.Slots) (hc : s.Alive c)
    (halive : ∀ c, s'.Alive c ↔ s.Alive c) (hsys : s'.syscall = s.syscall)
    (hpc : ∀ c' ≠ c, s'.pc c' = s.pc c') (hslots : ∀ j ≠ s.syscall c, s'.slots j = s.slots j)
    (hrec : ∀ j ≠ s.syscall c, s'.record j = s.record j) (htok : ∀ j ≠ s.syscall c, tok' j = tok j)
    (hok : CallOk c (s'.pc c) (s'.slots (s.syscall c)) (s'.record (s.syscall c))
      (tok' (s.syscall c))) : s'.Calls tok' where
  ok := by
    intro c' hc'
    rw [halive] at hc'
    rw [hsys]
    by_cases heq : c' = c
    · rw [heq]
      exact hok
    · have hne : s.syscall c' ≠ s.syscall c := fun he => heq (hs.owner c' c hc' hc he)
      rw [hpc c' heq, hslots _ hne, hrec _ hne, htok _ hne]
      exact h.ok c' hc'
  rest := by
    intro i hi
    rw [hsys] at hi
    have hne : i ≠ s.syscall c := fun he => hi c ((halive c).mpr hc) he.symm
    rw [htok i hne, hslots i hne]
    exact h.rest i (fun c' hc' => hi c' ((halive c').mpr hc'))

theorem Calls.congr (h : s.Calls tok) (halive : ∀ c, s'.Alive c ↔ s.Alive c)
    (hsys : s'.syscall = s.syscall) (hpc : s'.pc = s.pc) (hslots : s'.slots = s.slots)
    (hrec : s'.record = s.record) : s'.Calls tok where
  ok := by
    intro c hc
    rw [hsys, hpc, hslots, hrec]
    exact h.ok c ((halive c).mp hc)
  rest := by
    intro i hi
    rw [hslots]
    rw [hsys] at hi
    exact h.rest i (fun c hc => hi c ((halive c).mpr hc))

theorem Calls.add (h : s.Calls tok) (hs : s.Callers) (hc : ¬ s.Alive c)
    (halive : ∀ c', s'.Alive c' ↔ s.Alive c' ∨ c' = c) (hused : s.freeslots i = false)
    (hsys : s'.syscall = Function.update s.syscall c i) (hpc : s'.pc = s.pc)
    (hslots : s'.slots = s.slots) (hrec : s'.record = s.record) : s'.Calls tok where
  ok := by
    intro c' hc'
    rw [hsys, hpc, hslots, hrec]
    by_cases heq : c' = c
    · subst heq
      have hrest := h.rest i (fun c'' hc'' he => by
        have := (hs.slots.used c'' hc'').1
        rw [he, hused] at this
        cases this)
      rw [update_self, hs.idle_of_not_alive hc]
      exact hrest
    · rw [update_of_ne heq]
      exact h.ok c' (((halive c').mp hc').resolve_right heq)
  rest := by
    intro j hj
    rw [hslots]
    refine h.rest j (fun c' hc' => ?_)
    have hne : c' ≠ c := fun he => hc (he ▸ hc')
    have := hj c' ((halive c').mpr (.inl hc'))
    rwa [hsys, update_of_ne hne] at this

/-! ## Steps of the schedulers -/

section

variable (hs : s.Inv tok)

include hs

theorem Inv.congr (hcallers : s'.Callers) (halive : ∀ c, s'.Alive c ↔ s.Alive c)
    (hsys : s'.syscall = s.syscall) (hpc : s'.pc = s.pc) (hslots : s'.slots = s.slots)
    (hrec : s'.record = s.record) (hq : s'.syscallQueue = s.syscallQueue)
    (hh : s'.hosts = s.hosts) (hr : s'.returnQueue = s.returnQueue)
    (hist : s'.history = s.history) (hsound : s'.fault = s.fault) : s'.Inv tok :=
  ⟨hcallers, hs.tokens.congr hq hh hr, hs.calls.congr halive hsys hpc hslots hrec,
    hist ▸ hs.history, hsound.trans hs.sound⟩

theorem Inv.add (hcallers : s'.Callers) (hc : ¬ s.Alive c)
    (halive : ∀ c', s'.Alive c' ↔ s.Alive c' ∨ c' = c) (hused : s.freeslots i = false)
    (hsys : s'.syscall = update s.syscall c i) (hpc : s'.pc = s.pc) (hslots : s'.slots = s.slots)
    (hrec : s'.record = s.record) (hq : s'.syscallQueue = s.syscallQueue)
    (hh : s'.hosts = s.hosts) (hr : s'.returnQueue = s.returnQueue)
    (hist : s'.history = s.history) (hsound : s'.fault = s.fault) : s'.Inv tok :=
  ⟨hcallers, hs.tokens.congr hq hh hr,
    hs.calls.add hs.callers hc halive hused hsys hpc hslots hrec, hist ▸ hs.history,
    hsound.trans hs.sound⟩

theorem Inv.free {a : Nat} (h : hostCallStep s (.free a) = some s') : s'.Inv tok := by
  have hcallers := hs.callers.step (by simp) h
  have halive := alive_free h
  obtain ⟨hexit, ⟨⟩⟩ := Option.ite_none_right_eq_some.mp h
  obtain ⟨hcr, hidle, -⟩ := hs.callers.places.parked a (by simp [hexit])
  have hrest := hs.calls.ok (.lthread a) hcr
  rw [hidle] at hrest
  refine ⟨hcallers, hs.tokens.congr rfl rfl rfl, ⟨?_, ?_⟩, hs.history, hs.sound⟩
  · intro c hc
    exact hs.calls.ok c ((halive c).mp hc).1
  · intro i hi
    by_cases hia : i = s.syscall (.lthread a)
    · exact hia ▸ hrest
    · refine hs.calls.rest i (fun c hc => ?_)
      by_cases hca : c = .lthread a
      · exact fun he => hia (he ▸ hca ▸ rfl)
      · exact hi c ((halive c).mpr ⟨hc, hca⟩)

/-! ## Steps of the wrappers -/

theorem Inv.wrapper {tok' : Nat → Token} {pc : CallPc} (hcallers : s'.Callers)
    (hk : s.caller k = some c) (hframe : s.Frame s') (hpc : s'.pc = update s.pc c pc)
    (hslots : ∀ j ≠ s.syscall c, s'.slots j = s.slots j)
    (hrec : ∀ j ≠ s.syscall c, s'.record j = s.record j)
    (htok : ∀ j ≠ s.syscall c, tok' j = tok j) (htokens : s'.Tokens tok')
    (hok : CallOk c pc (s'.slots (s.syscall c)) (s'.record (s.syscall c)) (tok' (s.syscall c)))
    (hist : ∀ rv ∈ s'.history, rv.1.Delivered rv.2) (hsound : s'.fault = s.fault) :
    s'.Inv tok' := by
  have hself : s'.pc c = pc := by rw [hpc, update_self]
  have hother : ∀ c' ≠ c, s'.pc c' = s.pc c' := fun c' hne => by
    rw [hpc, update_of_ne hne]
  have hcalls := hs.calls.update hs.callers.slots (hs.callers.caller hk).1 hframe.alive
    hframe.syscall hother hslots hrec htok (hself ▸ hok)
  exact ⟨hcallers, htokens, hcalls, hist, hsound.trans hs.sound⟩

theorem Inv.call {req : HostRequest} {grow : Option HostRequest}
    (h : hostCallStep s (.call k req grow) = some s') : s'.Inv tok := by
  have hcallers := hs.callers.step (by simp) h
  obtain ⟨c, hk, h⟩ := Option.bind_eq_some_iff.mp h
  have hok := hs.calls.ok c (hs.callers.caller hk).1
  cases hpc : s.pc c <;> simp only [hpc, reduceCtorEq, Option.some.injEq] at h
  subst h
  rw [hpc] at hok
  refine hs.wrapper hcallers hk ⟨rfl, rfl, rfl, rfl, rfl, rfl, rfl, rfl⟩ rfl (fun _ _ => rfl)
    (fun _ _ => rfl) (fun _ _ => rfl) (hs.tokens.congr rfl rfl rfl) ?_ hs.history rfl
  cases grow <;> exact hok

theorem Inv.switchAsync {a : Nat} {next : Option HostRequest}
    (hk : s.caller k = some (.lthread a)) (hpc : s.pc (.lthread a) = .switch next) :
    ((s.setPc (.lthread a) (.yielded next)).setCur k (.switched a)).Inv tok := by
  have hal := (hs.callers.caller hk).1
  have hok := hs.calls.ok _ hal
  rw [hpc] at hok
  have hrun : s.cur k ≠ .off := by
    rcases caller_eq_some hk with ⟨-, hown⟩ | ⟨b, -, hrun⟩
    · simp [hown]
    · simp [hrun]
  have halive : ∀ c, ((s.setPc (.lthread a) (.yielded next)).setCur k (.switched a)).Alive c ↔
      s.Alive c := alive_setCur _ _ hrun (by simp)
  refine ⟨hs.callers.switch hk, hs.tokens.congr rfl rfl rfl, ?_, hs.history, hs.sound⟩
  refine hs.calls.update hs.callers.slots hal halive rfl
    (fun c' hne => update_of_ne hne _ _) (fun _ _ => rfl) (fun _ _ => rfl)
    (fun _ _ => rfl) ?_
  show CallOk _ (update s.pc _ _ _) _ _ _
  rw [update_self]
  obtain ⟨h₁, h₂, h₃, h₄, h₅, h₆, h₇⟩ := hok
  exact ⟨h₁, h₂, h₃, h₄, h₅, h₆, h₇, a, rfl⟩

theorem Inv.go (h : hostCallStep s (.go k) = some s') : ∃ tok', s'.Inv tok' := by
  have hcallers := hs.callers.step (by simp) h
  obtain ⟨c, hk, h⟩ := Option.bind_eq_some_iff.mp h
  have hal := (hs.callers.caller hk).1
  have hok := hs.calls.ok c hal
  simp only [callStep] at h
  cases hpc : s.pc c with
  | idle | leave next | yielded next | waiting next => simp [hpc] at h
  | fill req next =>
    simp only [hpc, Option.some.injEq] at h
    subst h
    rw [hpc] at hok
    refine ⟨tok, hs.wrapper hcallers hk ⟨rfl, rfl, rfl, rfl, rfl, rfl, rfl, rfl⟩ rfl
      (fun j hj => update_of_ne hj _ _) (fun j hj => update_of_ne hj _ _)
      (fun _ _ => rfl) (hs.tokens.congr rfl rfl rfl) ?_ hs.history rfl⟩
    simp only [setPc, setRecord, setSlot, update_self]
    exact hok.fill
  | switch next =>
    simp only [hpc] at h
    split at h
    · -- an asynchronous call is only made by an lthread
      cases c with
      | sched k' => cases h
      | lthread a =>
        simp only [Option.some.injEq] at h
        subst h
        exact ⟨tok, hs.switchAsync hk hpc⟩
    · simp only [Option.some.injEq] at h
      subst h
      rw [hpc] at hok
      refine ⟨tok, hs.wrapper hcallers hk ⟨rfl, rfl, rfl, rfl, rfl, rfl, rfl, rfl⟩ rfl
        (fun j hj => update_of_ne hj _ _) (fun j hj => update_of_ne hj _ _)
        (fun _ _ => rfl) (hs.tokens.congr rfl rfl rfl) ?_ hs.history rfl⟩
      simp only [setPc, setRecord, setSlot, update_self]
      obtain ⟨h₁, h₂, h₃, h₄, h₅, h₆, hfilled⟩ := hok
      split <;> exact ⟨h₁, rfl, h₃, h₄, h₅, rfl, hfilled.fresh, hfilled.number, hfilled.args⟩
  | submit next =>
    simp only [hpc, Option.some.injEq] at h
    subst h
    rw [hpc] at hok
    obtain ⟨habs, hstatus, hcaller, hpush, hres, hsync, hfilled⟩ := hok
    refine ⟨_, hs.wrapper hcallers hk ⟨rfl, rfl, rfl, rfl, rfl, rfl, rfl, rfl⟩ rfl
      (fun _ _ => rfl) (fun _ _ => rfl) (fun j hj => update_of_ne hj _ _)
      (hs.tokens.submit habs rfl rfl rfl) ?_ hs.history rfl⟩
    rw [update_self]
    exact ⟨hcaller, hpush, hres, hsync, hstatus, hfilled⟩
  | spin next =>
    simp only [hpc, Option.ite_none_right_eq_some, Option.some.injEq] at h
    obtain ⟨htwo, rfl⟩ := h
    rw [hpc] at hok
    obtain ⟨hcaller, hpush, hres, hsync, hcases⟩ := hok
    -- only the host stores 2, when it has answered
    have hdone : tok (s.syscall c) = .absent ∧
        (s.record (s.syscall c)).Answered (s.slots (s.syscall c)) := by
      unfold SpinOk at hcases
      grind
    refine ⟨tok, hs.wrapper hcallers hk ⟨rfl, rfl, rfl, rfl, rfl, rfl, rfl, rfl⟩ rfl
      (fun _ _ => rfl) (fun _ _ => rfl) (fun _ _ => rfl) (hs.tokens.congr rfl rfl rfl) ?_
      hs.history rfl⟩
    exact ⟨hdone.1, hcaller, hdone.2, fun _ => ⟨hpush, hres⟩,
      fun h => absurd (hsync.symm.trans h) (by decide)⟩
  | readRet next =>
    simp only [hpc, Option.some.injEq] at h
    subst h
    rw [hpc] at hok
    exact ⟨tok, hs.wrapper hcallers hk ⟨rfl, rfl, rfl, rfl, rfl, rfl, rfl, rfl⟩ rfl
      (fun _ _ => rfl) (fun _ _ => rfl) (fun _ _ => rfl) (hs.tokens.congr rfl rfl rfl) hok
      hs.history rfl⟩
  | clear ret next =>
    simp only [hpc, Option.some.injEq] at h
    subst h
    rw [hpc] at hok
    obtain ⟨habs, -, hdelivered⟩ := hok
    refine ⟨tok, hs.wrapper hcallers hk ⟨rfl, rfl, rfl, rfl, rfl, rfl, rfl, rfl⟩ rfl
      (fun j hj => update_of_ne hj _ _) (fun _ _ => rfl) (fun _ _ => rfl)
      (hs.tokens.congr rfl rfl rfl) ?_ ?_ rfl⟩
    · simp only [setPc, setSlot, update_self]
      cases next <;> exact ⟨habs, rfl⟩
    · intro rv hrv
      rcases List.mem_append.mp hrv with hrv | hrv
      · exact hs.history rv hrv
      · rw [List.mem_singleton.mp hrv]
        exact hdelivered

theorem Inv.hostExit {ret : Word} (h : hostCallStep s (.hostExit k ret) = some s') :
    s'.Inv tok := by
  have hcallers := hs.callers.step (by simp) h
  obtain ⟨c, hk, h⟩ := Option.bind_eq_some_iff.mp h
  have hok := hs.calls.ok c (hs.callers.caller hk).1
  cases hpc : s.pc c <;> simp only [hpc, reduceCtorEq, Option.some.injEq] at h
  subst h
  rw [hpc] at hok
  obtain ⟨habs, -, hcaller, hpush, hres, hsync, hfilled⟩ := hok
  refine hs.wrapper hcallers hk ⟨rfl, rfl, rfl, rfl, rfl, rfl, rfl, rfl⟩ rfl
    (fun j hj => update_of_ne hj _ _) (fun j hj => update_of_ne hj _ _)
    (fun _ _ => rfl) (hs.tokens.congr rfl rfl rfl) ?_ hs.history rfl
  simp only [setPc, handleSyscall, setSlot, setRecord, update_self]
  exact ⟨habs, hcaller, hfilled.answered ret, fun _ => ⟨hpush, hres⟩,
    fun h => absurd (hsync.symm.trans h) (by decide)⟩

theorem Inv.callback (h : hostCallStep s (.callback k) = some s') : ∃ tok', s'.Inv tok' := by
  have hcallers := hs.callers.callback h
  obtain ⟨a, next, hsw, hcr, hpc, rfl⟩ := callback_cases hs.callers h
  have hal : s.Alive (.lthread a) := hcr
  have hok := hs.calls.ok _ hal
  rw [hpc] at hok
  obtain ⟨habs, hstatus, hcaller, hpush, hres, hsync, hfilled, hlt⟩ := hok
  have halive := alive_setCur (s := s) k .own (by simp [hsw]) (by simp)
  refine ⟨_, hcallers, hs.tokens.submit habs rfl rfl rfl, ?_, hs.history, hs.sound⟩
  refine hs.calls.update hs.callers.slots hal halive rfl
    (fun c' hne => update_of_ne hne _ _) (fun _ _ => rfl) (fun _ _ => rfl)
    (fun j hj => update_of_ne hj _ _) ?_
  show CallOk _ (update s.pc _ _ _) _ _ _
  rw [update_self, update_self]
  exact ⟨hcaller, hres, hsync, hstatus, hlt, hpush, hfilled⟩

/-! ## Steps of the host, and the way back -/

theorem Inv.onSlot {tok' : Nat → Token} (hcallers : s'.Callers) (hc : s.Alive c)
    (hframe : s.Frame s') (hpc : s'.pc = s.pc)
    (hslots : ∀ j ≠ s.syscall c, s'.slots j = s.slots j)
    (hrec : ∀ j ≠ s.syscall c, s'.record j = s.record j)
    (htok : ∀ j ≠ s.syscall c, tok' j = tok j) (htokens : s'.Tokens tok')
    (hok : CallOk c (s.pc c) (s'.slots (s.syscall c)) (s'.record (s.syscall c)) (tok' (s.syscall c)))
    (hist : s'.history = s.history) (hsound : s'.fault = s.fault) : s'.Inv tok' := by
  have hcalls := hs.calls.update hs.callers.slots hc hframe.alive hframe.syscall
    (fun _ _ => by rw [hpc]) hslots hrec htok (hpc ▸ hok)
  exact ⟨hcallers, htokens, hcalls, hist ▸ hs.history, hsound.trans hs.sound⟩

theorem Inv.owner {t : Token} (htok : tok i = t) (ht : t ≠ .absent) :
    ∃ c, s.Alive c ∧ s.syscall c = i ∧ CallOk c (s.pc c) (s.slots i) (s.record i) t := by
  obtain ⟨c, hc, rfl⟩ := hs.calls.exists_owner (htok ▸ ht)
  exact ⟨c, hc, rfl, htok ▸ hs.calls.ok c hc⟩

theorem Inv.hostTake (hstep : hostCallStep s (.hostTake h) = some s') : ∃ tok', s'.Inv tok' := by
  have hcallers := hs.callers.step (by simp) hstep
  simp only [hostCallStep] at hstep
  split at hstep
  · rename_i i rest hidle hq
    cases hstep
    have htok := (hs.tokens.queued i).mp (hq ▸ List.mem_cons_self)
    obtain ⟨c, hc, rfl, hok⟩ := hs.owner htok (by simp)
    refine ⟨_, hs.onSlot hcallers hc ⟨rfl, rfl, rfl, rfl, rfl, rfl, rfl, rfl⟩ rfl (fun _ _ => rfl)
      (fun _ _ => rfl) (fun j hj => update_of_ne hj _ _)
      (hs.tokens.take hidle hq rfl rfl rfl) ?_ rfl rfl⟩
    rw [update_self]
    exact hok.take
  · cases hstep

theorem Inv.hostExec {ret : Word} (hstep : hostCallStep s (.hostExec h ret) = some s') :
    ∃ tok', s'.Inv tok' := by
  have hcallers := hs.callers.step (by simp) hstep
  simp only [hostCallStep] at hstep
  split at hstep
  · rename_i i hheld
    cases hstep
    obtain ⟨c, hc, rfl, hok⟩ := hs.owner ((hs.tokens.host h .exec i).mp hheld) (by simp)
    refine ⟨_, hs.onSlot hcallers hc ⟨rfl, rfl, rfl, rfl, rfl, rfl, rfl, rfl⟩ rfl
      (fun j hj => update_of_ne hj _ _) (fun j hj => update_of_ne hj _ _)
      (fun j hj => update_of_ne hj _ _) (hs.tokens.stage hheld rfl rfl rfl) ?_ rfl rfl⟩
    simp only [setHost, handleSyscall, setSlot, setRecord, update_self]
    exact hok.exec ret
  · cases hstep

theorem Inv.hostCheck (hstep : hostCallStep s (.hostCheck h) = some s') : ∃ tok', s'.Inv tok' := by
  have hcallers := hs.callers.step (by simp) hstep
  simp only [hostCallStep] at hstep
  split at hstep
  · rename_i i hheld
    cases hstep
    obtain ⟨c, hc, rfl, hok⟩ := hs.owner ((hs.tokens.host h .check i).mp hheld) (by simp)
    refine ⟨_, hs.onSlot hcallers hc ⟨rfl, rfl, rfl, rfl, rfl, rfl, rfl, rfl⟩ rfl (fun _ _ => rfl)
      (fun _ _ => rfl) (fun j hj => update_of_ne hj _ _)
      (hs.tokens.stage hheld rfl rfl rfl) ?_ rfl rfl⟩
    rw [update_self]
    exact hok.check
  · cases hstep

theorem Inv.hostFinish (hstep : hostCallStep s (.hostFinish h) = some s') :
    ∃ tok', s'.Inv tok' := by
  have hcallers := hs.callers.step (by simp) hstep
  simp only [hostCallStep] at hstep
  split at hstep
  · rename_i i hheld
    cases hstep
    obtain ⟨c, hc, rfl, hok⟩ := hs.owner ((hs.tokens.host h .store i).mp hheld) (by simp)
    refine ⟨_, hs.onSlot hcallers hc ⟨rfl, rfl, rfl, rfl, rfl, rfl, rfl, rfl⟩ rfl
      (fun j hj => update_of_ne hj _ _) (fun _ _ => rfl)
      (fun j hj => update_of_ne hj _ _) (hs.tokens.drop hheld rfl rfl rfl) ?_ rfl rfl⟩
    simp only [setHost, setSlot, update_self]
    exact hok.store
  · rename_i i hheld
    cases hstep
    obtain ⟨c, hc, rfl, hok⟩ := hs.owner ((hs.tokens.host h .push i).mp hheld) (by simp)
    refine ⟨_, hs.onSlot hcallers hc ⟨rfl, rfl, rfl, rfl, rfl, rfl, rfl, rfl⟩ rfl (fun _ _ => rfl)
      (fun j hj => update_of_ne hj _ _) (fun j hj => update_of_ne hj _ _)
      (hs.tokens.push hheld rfl rfl rfl) ?_ rfl rfl⟩
    simp only [setHost, setRecord, update_self]
    exact hok.push
  · cases hstep

theorem Inv.resumeSlot (hstep : hostCallStep s (.resumeSlot k) = some s') :
    ∃ tok', s'.Inv tok' := by
  simp only [hostCallStep, Option.ite_none_right_eq_some] at hstep
  obtain ⟨hloop, hstep⟩ := hstep
  obtain ⟨hown, hidle⟩ := inLoop_eq_true hloop
  split at hstep
  · cases hstep
  · rename_i i rest hq
    cases hstep
    have htok := (hs.tokens.returned i).mp (hq ▸ List.mem_cons_self)
    obtain ⟨c, hc, rfl, hok⟩ := hs.owner htok (by simp)
    obtain ⟨next, a, hpc, rfl, hok'⟩ := hok.resume
    have hcr : s.created a = true := hc
    have howner : s.slottolthread (s.syscall (.lthread a)) = .ok a := by
      simp [slottolthread, (hs.callers.slots.used _ hc).2, hs.callers.slots.lthread a hcr]
    have halive := alive_setCur (s := s) k (.running a) (by simp [hown]) (by simp)
    have hframe : s.Frame { s with returnQueue := rest } :=
      ⟨rfl, rfl, rfl, rfl, rfl, rfl, rfl, rfl⟩
    have hcallers := (hs.callers.congr hframe rfl).resumeFrom hown hidle howner hcr hpc
    refine ⟨update tok (s.syscall (.lthread a)) .absent, ?_⟩
    have howner' : slottolthread { s with returnQueue := rest } (s.syscall (.lthread a)) = .ok a :=
      howner
    simp only [resumeFrom, howner', setCur, setRecord, hpc, setPc] at hcallers ⊢
    refine ⟨hcallers, hs.tokens.pop hq rfl rfl rfl, ?_, hs.history, hs.sound⟩
    refine hs.calls.update hs.callers.slots hc halive rfl
      (fun c' hne => update_of_ne hne _ _) (fun _ _ => rfl)
      (fun j hj => update_of_ne hj _ _) (fun j hj => update_of_ne hj _ _) ?_
    simp only [update_self]
    exact hok'

/-! ## Runs -/

/-- **Every step keeps the invariant**, with the tokens where it moves them. -/
theorem Inv.step (l : HostCallLabel) (h : hostCallStep s l = some s') : ∃ tok', s'.Inv tok' := by
  cases l with
  | start k i =>
    have halive := alive_start h
    have hcallers := hs.callers.start h
    obtain ⟨⟨hoff, -, hfree⟩, ⟨⟩⟩ := Option.ite_none_right_eq_some.mp h
    have hdead : ¬ s.Alive (.sched k) := by simp [Alive, hoff]
    exact ⟨tok, hs.add hcallers hdead halive hfree rfl rfl rfl rfl rfl rfl rfl rfl rfl⟩
  | create a i =>
    have halive := alive_create h
    have hcallers := hs.callers.create h
    obtain ⟨⟨hnew, -, hfree⟩, ⟨⟩⟩ := Option.ite_none_right_eq_some.mp h
    have hdead : ¬ s.Alive (.lthread a) := by simp [Alive, hnew]
    exact ⟨tok, hs.add hcallers hdead halive hfree rfl rfl rfl rfl rfl rfl rfl rfl rfl⟩
  | yield k =>
    obtain ⟨a, ha, rfl⟩ := Option.map_eq_some_iff.mp h
    have halive := alive_setCur (s := s) k .own
      (by simp [(atWork_eq_some ha).1]) (by simp)
    exact ⟨tok, hs.congr (hs.callers.yield ha) halive rfl rfl rfl rfl rfl rfl rfl rfl rfl⟩
  | sleep k | exit k =>
    obtain ⟨a, ha, rfl⟩ := Option.map_eq_some_iff.mp h
    have halive := alive_setCur (s := s) k .own
      (by simp [(atWork_eq_some ha).1]) (by simp)
    exact ⟨tok, hs.congr (hs.callers.park ha) halive rfl rfl rfl rfl rfl rfl rfl rfl rfl⟩
  | pin k b =>
    have hcallers := hs.callers.step (by simp) h
    obtain ⟨a, -, rfl⟩ := Option.map_eq_some_iff.mp h
    exact ⟨tok, hs.congr hcallers (fun _ => Iff.rfl) rfl rfl rfl rfl rfl rfl rfl rfl rfl⟩
  | wake a =>
    have hcallers := hs.callers.wake h
    obtain ⟨-, ⟨⟩⟩ := Option.ite_none_right_eq_some.mp h
    exact ⟨tok, hs.congr hcallers (fun _ => Iff.rfl) rfl rfl rfl rfl rfl rfl rfl rfl rfl⟩
  | free a => exact ⟨tok, hs.free h⟩
  | resume k =>
    have hcallers := hs.callers.resume h
    simp only [hostCallStep, Option.ite_none_right_eq_some] at h
    obtain ⟨hloop, h⟩ := h
    split at h
    · cases h
    · rename_i a rest hq
      cases h
      have halive := alive_setCur (s := s) k (.running a)
        (by simp [(inLoop_eq_true hloop).1]) (by simp)
      exact ⟨tok, hs.congr hcallers halive rfl rfl rfl rfl rfl rfl rfl rfl rfl⟩
  | resumeSlot k => exact hs.resumeSlot h
  | call k req grow => exact ⟨tok, hs.call h⟩
  | go k => exact hs.go h
  | hostExit k ret => exact ⟨tok, hs.hostExit h⟩
  | callback k => exact hs.callback h
  | hostTake t => exact hs.hostTake h
  | hostExec t ret => exact hs.hostExec h
  | hostCheck t => exact hs.hostCheck h
  | hostFinish t => exact hs.hostFinish h

end

/-! ## What a run can rely on -/

/-- **Each result is delivered to its caller.** -/
structure ResultsDelivered (s : HostCallSys) : Prop where
  /-- A wrapper that has returned a value had its own request executed once, with that answer. -/
  returned : ∀ r v, (r, v) ∈ s.history → r.Delivered v
  returning : ∀ c v next, s.Alive c → s.pc c = .clear v next →
    (s.record (s.syscall c)).caller = c ∧ (s.record (s.syscall c)).Delivered v
  inProgress : ∀ c, s.Alive c → (s.pc c).requested = true →
    (s.record (s.syscall c)).caller = c ∧ (s.record (s.syscall c)).InProgress
  /-- No request is lost: a submitted one is on its way to be executed or back. -/
  underWay : ∀ c next, s.Alive c → s.pc c = .spin next ∨ s.pc c = .waiting next →
    if (s.record (s.syscall c)).execs = [] then
      s.syscall c ∈ s.syscallQueue ∨ ∃ h, s.hosts h = some (.exec, s.syscall c)
    else s.syscall c ∈ s.returnQueue ∨ (s.slots (s.syscall c)).status = 2 ∨
      ∃ h st, s.hosts h = some (st, s.syscall c) ∧ st ≠ .exec
  /-- A switched out caller has a scheduler that submits its request. -/
  submitted : ∀ a next, s.pc (.lthread a) = .yielded next → ∃ k, s.cur k = .switched a
  /-- The return queue holds no synchronous request, and whoever is resumed from it waits for
  this slot with its request executed. -/
  returnQueue : ∀ i ∈ s.returnQueue, (s.slots i).status ≠ 1 ∧ (s.record i).sync = false ∧
    (s.record i).execs.length = 1 ∧ ∃ a next, s.slotlthreads i = some a ∧
      s.syscall (.lthread a) = i ∧ s.pc (.lthread a) = .waiting next ∧ ∀ k, ¬ s.Holds k a
  /-- A slot has one request outstanding at most: its number is at one place at most, and only
  while its owner waits for it. -/
  queuesNodup : (s.syscallQueue ++ s.returnQueue).Nodup
  oneHost : ∀ h st i, s.hosts h = some (st, i) → i ∉ s.syscallQueue ∧ i ∉ s.returnQueue ∧
    ∀ h' st', s.hosts h' = some (st', i) → h' = h
  awaited : ∀ i, s.InFlight i → ∃ c next, s.Alive c ∧ s.syscall c = i ∧
    (s.pc c = .spin next ∨ s.pc c = .waiting next)
  oneOwner : ∀ c c', s.Alive c → s.Alive c' → s.syscall c = s.syscall c' → c = c'
  /-- The status is 0 between the calls, and in a slot that nobody has. -/
  atRest : ∀ c, s.Alive c → s.pc c = .idle → (s.slots (s.syscall c)).status = 0
  unowned : ∀ i, (∀ c, s.Alive c → s.syscall c ≠ i) → (s.slots i).status = 0
  sound : s.fault = none

theorem Inv.underWay (hs : s.Inv tok) {next : Option HostRequest} (hc : s.Alive c)
    (hpc : s.pc c = .spin next ∨ s.pc c = .waiting next) :
    if (s.record (s.syscall c)).execs = [] then
      s.syscall c ∈ s.syscallQueue ∨ ∃ h, s.hosts h = some (.exec, s.syscall c)
    else s.syscall c ∈ s.returnQueue ∨ (s.slots (s.syscall c)).status = 2 ∨
      ∃ h st, s.hosts h = some (st, s.syscall c) ∧ st ≠ .exec := by
  have hok := hs.calls.ok c hc
  have hqueued := hs.tokens.queued (s.syscall c)
  have hreturned := hs.tokens.returned (s.syscall c)
  have hhost := fun h st => hs.tokens.host h st (s.syscall c)
  have hfresh : ∀ {r : CallRecord} {sc : SyscallT}, r.Filled sc → r.execs = [] := fun h => h.fresh
  have hans : ∀ {r : CallRecord} {sc : SyscallT}, r.Answered sc → r.execs ≠ [] := by
    rintro r sc ⟨e, he, -⟩
    simp [he]
  rcases hpc with hpc | hpc
  · rw [hpc] at hok
    have hspin := hok.2.2.2.2
    unfold SpinOk at hspin
    grind
  · rw [hpc] at hok
    have hwait := hok.2.2.2.2.2
    unfold WaitOk at hwait
    grind

theorem Inv.returnQueue (hs : s.Inv tok) (hi : i ∈ s.returnQueue) :
    (s.slots i).status ≠ 1 ∧ (s.record i).sync = false ∧ (s.record i).execs.length = 1 ∧
      ∃ a next, s.slotlthreads i = some a ∧ s.syscall (.lthread a) = i ∧
        s.pc (.lthread a) = .waiting next ∧ ∀ k, ¬ s.Holds k a := by
  obtain ⟨c, hc, rfl, hok⟩ := hs.owner ((hs.tokens.returned i).mp hi) (by simp)
  obtain ⟨next, a, hpc, rfl, -⟩ := hok.resume
  rw [hpc] at hok
  obtain ⟨-, -, hsync, hstatus, -, -, e, he, -⟩ := hok
  refine ⟨by omega, hsync, by simp [he], a, next, hs.callers.slots.lthread a hc, rfl, hpc, ?_⟩
  exact ((hs.callers.places.placeOf a).of_waiting hpc).2.2

theorem Inv.resultsDelivered (hs : s.Inv tok) : s.ResultsDelivered where
  returned := fun r v hrv => hs.history (r, v) hrv
  returning := by
    intro c v next hc hpc
    have hok := hs.calls.ok c hc
    rw [hpc] at hok
    exact ⟨hok.2.1, hok.2.2⟩
  inProgress := fun c hc hpc => (hs.calls.ok c hc).inProgress hpc
  underWay := fun c next hc hpc => hs.underWay hc hpc
  submitted := hs.callers.places.yielded
  returnQueue := fun i hi => hs.returnQueue hi
  queuesNodup := by
    refine List.nodup_append.mpr ⟨hs.tokens.queuedOnce, hs.tokens.returnedOnce, ?_⟩
    rintro i hi j hj rfl
    cases ((hs.tokens.queued i).mp hi).symm.trans ((hs.tokens.returned i).mp hj)
  oneHost := by
    intro h st i hi
    have htok := (hs.tokens.host h st i).mp hi
    refine ⟨fun hq => ?_, fun hq => ?_, fun h' st' hi' => ?_⟩
    · cases ((hs.tokens.queued i).mp hq).symm.trans htok
    · cases ((hs.tokens.returned i).mp hq).symm.trans htok
    · cases ((hs.tokens.host h' st' i).mp hi').symm.trans htok
      rfl
  awaited := by
    intro i hi
    obtain ⟨c, hc, hci, hok⟩ := hs.owner rfl (hs.tokens.token_ne_absent hi)
    obtain ⟨next, hpc⟩ := hok.waits (hs.tokens.token_ne_absent hi)
    exact ⟨c, next, hc, hci, hpc⟩
  oneOwner := hs.callers.slots.owner
  atRest := by
    intro c hc hpc
    have hok := hs.calls.ok c hc
    rw [hpc] at hok
    exact hok.2
  unowned := fun i hi => (hs.calls.rest i hi).2
  sound := hs.sound

end HostCallSys

/-- **The host-call protocol.** For any number of schedulers, lthreads and host threads, with
`always_sync` and `exit_on_host_calls` set or not, every run delivers each result to its
caller. -/
theorem host_calls_deliver (alwaysSync exitOnHostCalls : Bool) (maxsyscalls : Nat)
    {s : HostCallSys} (h : Reaches hostCallStep (fun _ _ => True)
      (HostCallSys.initial alwaysSync exitOnHostCalls maxsyscalls) s) : s.ResultsDelivered := by
  have hinv : ∃ tok, s.Inv tok := by
    refine h.invariant (fun s => ∃ tok, s.Inv tok) ?_ ⟨_, HostCallSys.inv_initial _ _ _⟩
    rintro s l s' ⟨tok, hs⟩ - hstep
    exact hs.step l hstep
  obtain ⟨tok, hs⟩ := hinv
  exact hs.resultsDelivered

def growRun : List HostCallLabel :=
  [.start 0 0, .create 7 1, .resume 0, .call 0 ⟨17, [3, 4096, 512, 0]⟩ (some ⟨25, [4096, 1, 2, 1]⟩),
    .go 0, .go 0, .callback 0, .hostTake 0, .hostExec 0 4096, .hostCheck 0, .hostFinish 0,
    .resumeSlot 0, .go 0, .go 0,
    .go 0, .go 0, .callback 0, .hostTake 1, .hostExec 1 512, .hostCheck 1, .hostFinish 1,
    .resumeSlot 0, .go 0, .go 0]

theorem host_calls_deliver_grow : ∃ s : HostCallSys, s.history.map (·.2) = [4096, 512] ∧
    s.history.map (·.1.execs.map (·.args)) = [[[4096, 1, 2, 1, 0, 0]], [[3, 4096, 512, 0, 0, 0]]] ∧
    s.ResultsDelivered := by
  have hrun : (exec hostCallStep (fun _ _ => True) (HostCallSys.initial false false 2)
      growRun).map (fun s => (s.history.map (·.2), s.history.map (·.1.execs.map (·.args)))) =
      some ([4096, 512], [[[4096, 1, 2, 1, 0, 0]], [[3, 4096, 512, 0, 0, 0]]]) := by
    decide +kernel
  obtain ⟨s, hexec, hs⟩ := Option.map_eq_some_iff.mp hrun
  obtain ⟨hret, hargs⟩ := Prod.mk.injEq .. ▸ hs
  exact ⟨s, hret, hargs, host_calls_deliver false false 2 (exec_reaches growRun hexec)⟩

end RktIo.Host
