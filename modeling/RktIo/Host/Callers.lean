import RktIo.Host.Protocol

/-!
# Who makes host calls

What the enclave keeps about its schedulers and lthreads does not depend on the host, as long
as the host returns the slots that it was given.
-/

namespace RktIo.Host.HostCallSys

open Function

variable {s s' : HostCallSys}

def Alive (s : HostCallSys) : Caller → Prop
  | .sched k => s.cur k ≠ .off
  | .lthread a => s.created a = true

def Holds (s : HostCallSys) (k a : Nat) : Prop := s.cur k = .running a ∨ s.cur k = .switched a

/-- Every slot belongs to one caller at most, and `slotlthreads` says to which lthread. -/
structure Slots (s : HostCallSys) : Prop where
  owner : ∀ c c', s.Alive c → s.Alive c' → s.syscall c = s.syscall c' → c = c'
  used : ∀ c, s.Alive c → s.freeslots (s.syscall c) = true ∧ s.syscall c < s.maxsyscalls
  lthread : ∀ a, s.created a = true → s.slotlthreads (s.syscall (.lthread a)) = some a

/-- Where the lthreads are when they are in no host call, and in which part of one otherwise. -/
structure Places (s : HostCallSys) : Prop where
  queuedOnce : s.schedulerQueue.Nodup
  queued : ∀ a ∈ s.schedulerQueue, s.created a = true ∧ s.pc (.lthread a) = .idle ∧
    s.parked a = .no ∧ ∀ k, ¬ s.Holds k a
  running : ∀ k a, s.cur k = .running a → s.created a = true ∧ s.parked a = .no ∧
    (∀ n, s.pc (.lthread a) ≠ .yielded n) ∧ ∀ n, s.pc (.lthread a) ≠ .waiting n
  switched : ∀ k a, s.cur k = .switched a → s.created a = true ∧ s.parked a = .no ∧
    ∃ n, s.pc (.lthread a) = .yielded n
  once : ∀ k k' a, s.Holds k a → s.Holds k' a → k = k'
  parked : ∀ a, s.parked a ≠ .no → s.created a = true ∧ s.pc (.lthread a) = .idle ∧
    ∀ k, ¬ s.Holds k a
  sched : ∀ k n, s.pc (.sched k) ≠ .yielded n ∧ s.pc (.sched k) ≠ .waiting n
  own : ∀ k, s.cur k ≠ .own → s.pc (.sched k) = .idle
  free : ∀ a, s.created a = false → s.pc (.lthread a) = .idle
  yielded : ∀ a n, s.pc (.lthread a) = .yielded n → ∃ k, s.cur k = .switched a

structure Callers (s : HostCallSys) : Prop where
  slots : s.Slots
  places : s.Places

theorem callers_initial (alwaysSync exitOnHostCalls : Bool) (maxsyscalls : Nat) :
    (initial alwaysSync exitOnHostCalls maxsyscalls).Callers where
  slots := by
    constructor <;> intro c <;> cases c <;> simp [Alive, initial]
  places := by constructor <;> simp [initial, Holds]

variable {c : Caller} {i : Nat}

theorem Callers.idle_of_not_alive (hs : s.Callers) (hc : ¬ s.Alive c) : s.pc c = .idle := by
  cases c with
  | sched k =>
    refine hs.places.own k (fun hown => hc ?_)
    simp [Alive, hown]
  | lthread a => exact hs.places.free a (by simpa [Alive] using hc)

/-! ## Who is running -/

variable {k a : Nat}

theorem atWork_eq_some (h : s.atWork k = some a) :
    s.cur k = .running a ∧ s.pc (.lthread a) = .idle := by
  unfold atWork at h
  grind

theorem inLoop_eq_true (h : s.inLoop k = true) :
    s.cur k = .own ∧ s.pc (.sched k) = .idle := by
  unfold inLoop at h
  grind

theorem caller_eq_some (h : s.caller k = some c) :
    c = .sched k ∧ s.cur k = .own ∨ ∃ a, c = .lthread a ∧ s.cur k = .running a := by
  unfold caller at h
  grind

theorem alive_setCur (k : Nat) (cur : SchedCur) (hk : s.cur k ≠ .off) (hcur : cur ≠ .off)
    (c : Caller) : (s.setCur k cur).Alive c ↔ s.Alive c := by
  cases c with
  | sched k' => by_cases hkk : k' = k <;> simp [Alive, setCur, hkk, hk, hcur]
  | lthread a => simp [Alive, setCur]

theorem Callers.caller (hs : s.Callers) (h : s.caller k = some c) :
    s.Alive c ∧ (∀ n, s.pc c ≠ .yielded n) ∧ ∀ n, s.pc c ≠ .waiting n := by
  rcases caller_eq_some h with ⟨rfl, hown⟩ | ⟨a, rfl, hrun⟩
  · have hal : s.Alive (.sched k) := by simp [Alive, hown]
    exact ⟨hal, fun n => (hs.places.sched k n).1, fun n => (hs.places.sched k n).2⟩
  · obtain ⟨hcr, -, hy, hw⟩ := hs.places.running k a hrun
    exact ⟨hcr, hy, hw⟩

/-! ## Slots -/

theorem Slots.congr (h : s.Slots) (halive : ∀ c, s'.Alive c ↔ s.Alive c)
    (hsys : s'.syscall = s.syscall) (hfree : s'.freeslots = s.freeslots)
    (howner : s'.slotlthreads = s.slotlthreads) (hmax : s'.maxsyscalls = s.maxsyscalls) :
    s'.Slots where
  owner := by
    intro c c' hc hc'
    rw [hsys]
    exact h.owner c c' ((halive c).mp hc) ((halive c').mp hc')
  used := by
    intro c hc
    rw [hsys, hfree, hmax]
    exact h.used c ((halive c).mp hc)
  lthread := by
    intro a ha
    rw [hsys, howner]
    exact h.lthread a ((halive (.lthread a)).mp ha)

theorem Slots.add {v : Option Nat} (h : s.Slots) (hc : ¬ s.Alive c)
    (halive : ∀ c', s'.Alive c' ↔ s.Alive c' ∨ c' = c) (hi : i < s.maxsyscalls)
    (hused : s.freeslots i = false) (hsys : s'.syscall = update s.syscall c i)
    (hfree : s'.freeslots = update s.freeslots i true)
    (howner : s'.slotlthreads = update s.slotlthreads i v)
    (hv : ∀ a, c = .lthread a → v = some a) (hmax : s'.maxsyscalls = s.maxsyscalls) : s'.Slots := by
  -- the slots in use are other ones
  have hne : ∀ c', s.Alive c' → s.syscall c' ≠ i := by
    intro c' hc' he
    have := (h.used c' hc').1
    rw [he, hused] at this
    cases this
  have howners := h.owner
  have hlthread := h.lthread
  constructor
  · intro c₁ c₂ h₁ h₂
    rw [hsys]
    grind
  · intro c' hc'
    have := h.used c'
    rw [hsys, hfree, hmax]
    grind
  · intro a ha
    have hal := (halive (.lthread a)).mp ha
    rw [hsys, howner]
    by_cases hac : Caller.lthread a = c
    · subst hac
      simp [hv a rfl]
    · have hold : s.Alive (.lthread a) := hal.resolve_right hac
      have hsl := hne _ hold
      rw [update_of_ne hac, update_of_ne hsl]
      exact hlthread a hold

theorem Slots.remove (h : s.Slots) (ha : s.created a = true)
    (halive : ∀ c, s'.Alive c ↔ s.Alive c ∧ c ≠ .lthread a) (hsys : s'.syscall = s.syscall)
    (hfree : s'.freeslots = update s.freeslots (s.syscall (.lthread a)) false)
    (howner : s'.slotlthreads = update s.slotlthreads (s.syscall (.lthread a)) none)
    (hmax : s'.maxsyscalls = s.maxsyscalls) : s'.Slots := by
  -- the slots of the others stay
  have hother : ∀ c ≠ Caller.lthread a, s.Alive c → s.syscall c ≠ s.syscall (.lthread a) :=
    fun c hne hc he => hne (h.owner c _ hc ha he)
  constructor
  · intro c c' hc hc'
    rw [hsys]
    exact h.owner c c' ((halive c).mp hc).1 ((halive c').mp hc').1
  · intro c hc
    obtain ⟨hc, hne⟩ := (halive c).mp hc
    rw [hsys, hfree, hmax, update_of_ne (hother c hne hc)]
    exact h.used c hc
  · intro b hb
    obtain ⟨hb, hne⟩ := (halive (.lthread b)).mp hb
    rw [hsys, howner, update_of_ne (hother _ hne hb)]
    exact h.lthread b hb

theorem lthread_ne {b : Nat} (h : b ≠ a) : Caller.lthread b ≠ .lthread a :=
  fun heq => h (Caller.lthread.inj heq)

/-! ## Places

A step moves one lthread, and what `Places` says about the others it says before and after. -/

structure PlaceOf (s : HostCallSys) (a : Nat) : Prop where
  queued : a ∈ s.schedulerQueue → s.created a = true ∧ s.pc (.lthread a) = .idle ∧
    s.parked a = .no ∧ ∀ k, ¬ s.Holds k a
  running : ∀ k, s.cur k = .running a → s.created a = true ∧ s.parked a = .no ∧
    (∀ n, s.pc (.lthread a) ≠ .yielded n) ∧ ∀ n, s.pc (.lthread a) ≠ .waiting n
  switched : ∀ k, s.cur k = .switched a → s.created a = true ∧ s.parked a = .no ∧
    ∃ n, s.pc (.lthread a) = .yielded n
  once : ∀ k k', s.Holds k a → s.Holds k' a → k = k'
  parked : s.parked a ≠ .no → s.created a = true ∧ s.pc (.lthread a) = .idle ∧
    ∀ k, ¬ s.Holds k a
  free : s.created a = false → s.pc (.lthread a) = .idle
  yielded : ∀ n, s.pc (.lthread a) = .yielded n → ∃ k, s.cur k = .switched a

def SchedAt (s : HostCallSys) (k : Nat) : Prop :=
  (∀ n, s.pc (.sched k) ≠ .yielded n ∧ s.pc (.sched k) ≠ .waiting n) ∧
    (s.cur k ≠ .own → s.pc (.sched k) = .idle)

theorem Places.placeOf (h : s.Places) (a : Nat) : s.PlaceOf a :=
  ⟨h.queued a, fun k => h.running k a, fun k => h.switched k a, fun k k' => h.once k k' a,
    h.parked a, h.free a, h.yielded a⟩

theorem Places.schedAt (h : s.Places) (k : Nat) : s.SchedAt k := ⟨h.sched k, h.own k⟩

theorem places_of (hq : s.schedulerQueue.Nodup) (hall : ∀ a, s.PlaceOf a)
    (hsched : ∀ k, s.SchedAt k) : s.Places :=
  ⟨hq, fun a => (hall a).queued, fun k a => (hall a).running k, fun k a => (hall a).switched k,
    fun k k' a => (hall a).once k k', fun a => (hall a).parked, fun k => (hsched k).1,
    fun k => (hsched k).2, fun a => (hall a).free, fun a => (hall a).yielded⟩

structure Stays (s s' : HostCallSys) (a : Nat) : Prop where
  queued : a ∈ s'.schedulerQueue ↔ a ∈ s.schedulerQueue
  running : ∀ k, s'.cur k = .running a ↔ s.cur k = .running a
  switched : ∀ k, s'.cur k = .switched a ↔ s.cur k = .switched a
  created : s'.created a = s.created a
  parked : s'.parked a = s.parked a
  pc : s'.pc (.lthread a) = s.pc (.lthread a)

theorem PlaceOf.congr (h : s.PlaceOf a) (hstay : s.Stays s' a) : s'.PlaceOf a := by
  have hholds : ∀ k, s'.Holds k a ↔ s.Holds k a := fun k =>
    or_congr (hstay.running k) (hstay.switched k)
  constructor
  · simpa only [hstay.queued, hstay.created, hstay.pc, hstay.parked, hholds] using h.queued
  · simpa only [hstay.running, hstay.created, hstay.pc, hstay.parked] using h.running
  · simpa only [hstay.switched, hstay.created, hstay.pc, hstay.parked] using h.switched
  · simpa only [hholds] using h.once
  · simpa only [hstay.created, hstay.pc, hstay.parked, hholds] using h.parked
  · simpa only [hstay.created, hstay.pc] using h.free
  · simpa only [hstay.switched, hstay.pc] using h.yielded

theorem Places.move (h : s.Places) (a : Nat) (hothers : ∀ b, b ≠ a → s.Stays s' b)
    (ha : s'.PlaceOf a) (hq : s'.schedulerQueue.Nodup) (hsched : ∀ k, s'.SchedAt k) :
    s'.Places := by
  refine places_of hq (fun b => ?_) hsched
  by_cases hb : b = a
  · exact hb ▸ ha
  · exact (h.placeOf b).congr (hothers b hb)

theorem placeOf_unheld (hno : ∀ k, ¬ s.Holds k a)
    (hqueued : a ∈ s.schedulerQueue → s.created a = true ∧ s.pc (.lthread a) = .idle ∧
      s.parked a = .no)
    (hparked : s.parked a ≠ .no → s.created a = true ∧ s.pc (.lthread a) = .idle)
    (hfree : s.created a = false → s.pc (.lthread a) = .idle)
    (hpc : ∀ n, s.pc (.lthread a) ≠ .yielded n) : s.PlaceOf a where
  queued hmem := ⟨(hqueued hmem).1, (hqueued hmem).2.1, (hqueued hmem).2.2, hno⟩
  running k hk := absurd (.inl hk) (hno k)
  switched k hk := absurd (.inr hk) (hno k)
  once k _ hk := absurd hk (hno k)
  parked hp := ⟨(hparked hp).1, (hparked hp).2, hno⟩
  free := hfree
  yielded n hn := absurd hn (hpc n)

theorem placeOf_running (hrun : s.cur k = .running a) (honly : ∀ j, s.Holds j a → j = k)
    (hqueued : a ∉ s.schedulerQueue) (hcr : s.created a = true) (hparked : s.parked a = .no)
    (hy : ∀ n, s.pc (.lthread a) ≠ .yielded n) (hw : ∀ n, s.pc (.lthread a) ≠ .waiting n) :
    s.PlaceOf a where
  queued hmem := absurd hmem hqueued
  running _ _ := ⟨hcr, hparked, hy, hw⟩
  switched j hj := by
    rw [honly j (.inr hj), hrun] at hj
    cases hj
  once j j' hj hj' := (honly j hj).trans (honly j' hj').symm
  parked hp := absurd hparked hp
  free hnew := by simp [hcr] at hnew
  yielded n hn := absurd hn (hy n)

variable {next : Option HostRequest}

theorem placeOf_switched (hsw : s.cur k = .switched a)
    (honly : ∀ j, s.Holds j a → j = k) (hqueued : a ∉ s.schedulerQueue) (hcr : s.created a = true)
    (hparked : s.parked a = .no) (hpc : s.pc (.lthread a) = .yielded next) : s.PlaceOf a where
  queued hmem := absurd hmem hqueued
  running j hj := by
    rw [honly j (.inl hj), hsw] at hj
    cases hj
  switched _ _ := ⟨hcr, hparked, next, hpc⟩
  once j j' hj hj' := (honly j hj).trans (honly j' hj').symm
  parked hp := absurd hparked hp
  free hnew := by simp [hcr] at hnew
  yielded _ _ := ⟨k, hsw⟩

theorem PlaceOf.of_new (h : s.PlaceOf a) (hnew : s.created a = false) :
    s.pc (.lthread a) = .idle ∧ s.parked a = .no ∧ a ∉ s.schedulerQueue ∧ ∀ k, ¬ s.Holds k a := by
  have hdead : ¬ s.created a = true := by simp [hnew]
  refine ⟨h.free hnew, ?_, fun hmem => hdead (h.queued hmem).1, ?_⟩
  · by_contra hp
    exact hdead (h.parked hp).1
  · rintro k (hk | hk)
    · exact hdead (h.running k hk).1
    · exact hdead (h.switched k hk).1

theorem PlaceOf.not_queued (h : s.PlaceOf a) (hk : s.Holds k a) :
    a ∉ s.schedulerQueue :=
  fun hmem => (h.queued hmem).2.2.2 k hk

theorem PlaceOf.not_queued_of_parked (h : s.PlaceOf a) (hp : s.parked a ≠ .no) :
    a ∉ s.schedulerQueue :=
  fun hmem => hp (h.queued hmem).2.2.1

theorem PlaceOf.of_waiting (h : s.PlaceOf a) (hpc : s.pc (.lthread a) = .waiting next) :
    s.parked a = .no ∧ a ∉ s.schedulerQueue ∧ ∀ k, ¬ s.Holds k a := by
  refine ⟨?_, fun hmem => ?_, ?_⟩
  · by_contra hp
    cases hpc.symm.trans (h.parked hp).2.1
  · cases hpc.symm.trans (h.queued hmem).2.1
  · rintro k (hk | hk)
    · exact (h.running k hk).2.2.2 next hpc
    · obtain ⟨-, -, n, hn⟩ := h.switched k hk
      cases hpc.symm.trans hn

theorem Places.queue_append (h : s.Places) (ha : a ∉ s.schedulerQueue) :
    (s.schedulerQueue ++ [a]).Nodup := by
  rw [← List.concat_eq_append]
  exact h.queuedOnce.concat ha

/-! ## One scheduler changes what it holds -/

section SetCur

variable {k a b : Nat} {cur : SchedCur}

theorem holds_update (hcur : s'.cur = update s.cur k cur) (j : Nat) :
    s'.Holds j b ↔ if j = k then cur = .running b ∨ cur = .switched b else s.Holds j b := by
  rw [Holds, hcur]
  by_cases hj : j = k
  · rw [hj, update_self, if_pos rfl]
  · rw [update_of_ne hj, if_neg hj, Holds]

theorem stays_setCur (hcur : s'.cur = update s.cur k cur) (hold : ¬ s.Holds k b)
    (hnew : cur ≠ .running b ∧ cur ≠ .switched b)
    (hqueued : b ∈ s'.schedulerQueue ↔ b ∈ s.schedulerQueue) (hcr : s'.created b = s.created b)
    (hparked : s'.parked b = s.parked b) (hpc : s'.pc (.lthread b) = s.pc (.lthread b)) :
    s.Stays s' b := by
  obtain ⟨hrun, hsw⟩ := not_or.mp hold
  refine ⟨hqueued, fun j => ?_, fun j => ?_, hcr, hparked, hpc⟩
  all_goals
    rw [hcur]
    by_cases hj : j = k
    · subst hj
      simp [hrun, hsw, hnew]
    · rw [update_of_ne hj]

theorem schedAt_setCur (h : s.Places) (hcur : s'.cur = update s.cur k cur)
    (hpc : ∀ j, s'.pc (.sched j) = s.pc (.sched j)) (hk : cur ≠ .own → s.pc (.sched k) = .idle)
    (j : Nat) : s'.SchedAt j := by
  rw [SchedAt, hpc, hcur]
  refine ⟨(h.schedAt j).1, fun hne => ?_⟩
  by_cases hj : j = k
  · subst hj
    exact hk (by rwa [update_self] at hne)
  · exact (h.schedAt j).2 (by rwa [update_of_ne hj] at hne)

theorem not_holds_of_ne (hk : s.cur k = .running a ∨ s.cur k = .switched a) (hb : b ≠ a) :
    ¬ s.Holds k b := by
  rcases hk with hk | hk <;> simp [Holds, hk, hb.symm]

theorem not_holds_of_own (hk : s.cur k = .own) : ¬ s.Holds k b := by
  simp [Holds, hk]

theorem Places.unheld (h : s.Places) (hk : s.Holds k a)
    (hcur : s'.cur = update s.cur k .own) (j : Nat) : ¬ s'.Holds j a := by
  rw [holds_update hcur]
  by_cases hj : j = k
  · simp [hj]
  · rw [if_neg hj]
    exact fun hheld => hj (h.once j k a hheld hk)

theorem Places.only (h : s.Places) (hk : s.Holds k a ∨ ∀ j, ¬ s.Holds j a)
    (hcur : s'.cur = update s.cur k cur) (j : Nat) (hj : s'.Holds j a) : j = k := by
  by_contra hne
  rw [holds_update hcur, if_neg hne] at hj
  rcases hk with hk | hk
  · exact hne (h.once j k a hj hk)
  · exact hk j hj

end SetCur

/-! ## Steps of the schedulers -/

theorem Callers.reschedule {cur : SchedCur} {queue : List Nat} {parked : Nat → Parked}
    (hs : s.Callers) (hk : s.cur k ≠ .off) (hcur : cur ≠ .off)
    (hp : Places { s.setCur k cur with schedulerQueue := queue, parked := parked }) :
    Callers { s.setCur k cur with schedulerQueue := queue, parked := parked } :=
  ⟨hs.slots.congr (alive_setCur _ _ hk hcur) rfl rfl rfl rfl, hp⟩

theorem alive_start (h : hostCallStep s (.start k i) = some s') (c : Caller) :
    s'.Alive c ↔ s.Alive c ∨ c = .sched k := by
  obtain ⟨-, ⟨⟩⟩ := Option.ite_none_right_eq_some.mp h
  cases c with
  | sched k' => by_cases hk : k' = k <;> simp [Alive, setCur, hk]
  | lthread a => simp [Alive, setCur]

theorem Callers.start (hs : s.Callers) (h : hostCallStep s (.start k i) = some s') :
    s'.Callers := by
  have halive := alive_start h
  obtain ⟨⟨hoff, hi, hfree⟩, ⟨⟩⟩ := Option.ite_none_right_eq_some.mp h
  have hdead : ¬ s.Alive (.sched k) := by simp [Alive, hoff]
  refine ⟨hs.slots.add hdead halive hi hfree rfl rfl rfl (fun a ha => by cases ha) rfl, ?_⟩
  -- no lthread moves: the scheduler held none
  refine places_of hs.places.queuedOnce (fun b => (hs.places.placeOf b).congr ?_)
    (schedAt_setCur hs.places rfl (fun _ => rfl) (fun hne => absurd rfl hne))
  exact stays_setCur rfl (by simp [Holds, hoff]) ⟨nofun, nofun⟩ .rfl rfl rfl rfl

theorem alive_create (h : hostCallStep s (.create a i) = some s') (c : Caller) :
    s'.Alive c ↔ s.Alive c ∨ c = .lthread a := by
  obtain ⟨-, ⟨⟩⟩ := Option.ite_none_right_eq_some.mp h
  cases c with
  | sched k => simp [Alive]
  | lthread b => by_cases hb : b = a <;> simp [Alive, hb]

section

variable (hs : s.Callers)

include hs

theorem Callers.create (h : hostCallStep s (.create a i) = some s') : s'.Callers := by
  have halive := alive_create h
  obtain ⟨⟨hnew, hi, hfree⟩, ⟨⟩⟩ := Option.ite_none_right_eq_some.mp h
  have hdead : ¬ s.Alive (.lthread a) := by simp [Alive, hnew]
  refine ⟨hs.slots.add hdead halive hi hfree rfl rfl rfl (fun b hb => by cases hb; rfl) rfl, ?_⟩
  obtain ⟨hidle, hno, hqueued, hheld⟩ := (hs.places.placeOf a).of_new hnew
  refine hs.places.move a (fun b hb => ?_) ?_ (hs.places.queue_append hqueued) hs.places.schedAt
  · exact ⟨by simp [hb], fun _ => .rfl, fun _ => .rfl, update_of_ne hb _ _, rfl, rfl⟩
  · refine placeOf_unheld hheld (fun _ => ⟨update_self _ _ _, hidle, hno⟩)
      (fun hp => absurd hno hp) (fun _ => hidle) fun n hn => ?_
    cases hidle.symm.trans hn

theorem Callers.yield (ha : s.atWork k = some a) :
    Callers { s.setCur k .own with schedulerQueue := s.schedulerQueue ++ [a] } := by
  obtain ⟨hrun, hidle⟩ := atWork_eq_some ha
  obtain ⟨hcr, hno, hy, -⟩ := hs.places.running k a hrun
  have hqueued := (hs.places.placeOf a).not_queued (.inl hrun)
  refine hs.reschedule (by simp [hrun]) (by simp) ?_
  refine hs.places.move a (fun b hb => ?_) ?_ (hs.places.queue_append hqueued)
    (schedAt_setCur hs.places rfl (fun _ => rfl) (fun hne => absurd rfl hne))
  · exact stays_setCur rfl (not_holds_of_ne (.inl hrun) hb) ⟨nofun, nofun⟩ (by simp [hb]) rfl rfl
      rfl
  · exact placeOf_unheld (hs.places.unheld (.inl hrun) rfl) (fun _ => ⟨hcr, hidle, hno⟩)
      (fun hp => absurd hno hp) (fun _ => hidle) hy

theorem Callers.park {p : Parked} (ha : s.atWork k = some a) :
    Callers { s.setCur k .own with parked := update s.parked a p } := by
  obtain ⟨hrun, hidle⟩ := atWork_eq_some ha
  obtain ⟨hcr, hno, hy, -⟩ := hs.places.running k a hrun
  have hqueued := (hs.places.placeOf a).not_queued (.inl hrun)
  refine hs.reschedule (by simp [hrun]) (by simp) ?_
  refine hs.places.move a (fun b hb => ?_) ?_ hs.places.queuedOnce
    (schedAt_setCur hs.places rfl (fun _ => rfl) (fun hne => absurd rfl hne))
  · exact stays_setCur rfl (not_holds_of_ne (.inl hrun) hb) ⟨nofun, nofun⟩ .rfl rfl
      (update_of_ne hb _ _) rfl
  · exact placeOf_unheld (hs.places.unheld (.inl hrun) rfl) (fun hmem => absurd hmem hqueued)
      (fun _ => ⟨hcr, hidle⟩) (fun _ => hidle) hy

theorem Callers.wake (h : hostCallStep s (.wake a) = some s') : s'.Callers := by
  obtain ⟨hasleep, ⟨⟩⟩ := Option.ite_none_right_eq_some.mp h
  refine ⟨hs.slots.congr (fun c => Iff.rfl) rfl rfl rfl rfl, ?_⟩
  have hparked : s.parked a ≠ .no := by simp [hasleep]
  obtain ⟨hcr, hidle, hheld⟩ := hs.places.parked a hparked
  have hqueued := (hs.places.placeOf a).not_queued_of_parked hparked
  refine hs.places.move a (fun b hb => ?_) ?_ (hs.places.queue_append hqueued) hs.places.schedAt
  · exact ⟨by simp [hb], fun _ => .rfl, fun _ => .rfl, rfl, update_of_ne hb _ _, rfl⟩
  · refine placeOf_unheld hheld (fun _ => ⟨hcr, hidle, update_self _ _ _⟩)
      (fun hp => absurd (update_self _ _ _) hp) (fun _ => hidle) fun n hn => ?_
    cases hidle.symm.trans hn

theorem Callers.resume (h : hostCallStep s (.resume k) = some s') : s'.Callers := by
  simp only [hostCallStep, Option.ite_none_right_eq_some] at h
  obtain ⟨hloop, h⟩ := h
  obtain ⟨hown, hidle⟩ := inLoop_eq_true hloop
  cases hq : s.schedulerQueue with
  | nil => simp [hq] at h
  | cons a rest =>
    simp only [hq, Option.some.injEq] at h
    subst h
    have honce := hs.places.queuedOnce
    rw [hq] at honce
    obtain ⟨hqueued, honce⟩ := List.nodup_cons.mp honce
    obtain ⟨hcr, hpc, hno, hheld⟩ := hs.places.queued a (by rw [hq]; exact List.mem_cons_self)
    refine hs.reschedule (by simp [hown]) (by simp) ?_
    refine hs.places.move a (fun b hb => ?_) ?_ honce
      (schedAt_setCur hs.places rfl (fun _ => rfl) (fun _ => hidle))
    · exact stays_setCur rfl (not_holds_of_own hown) (by simp [hb.symm]) (by simp [hq, hb]) rfl rfl
        rfl
    · refine placeOf_running (update_self _ _ _) (hs.places.only (.inr hheld) rfl) hqueued
        hcr hno ?_ ?_
      all_goals exact fun n hn => by cases hpc.symm.trans hn

end

theorem alive_free (h : hostCallStep s (.free a) = some s') (c : Caller) :
    s'.Alive c ↔ s.Alive c ∧ c ≠ .lthread a := by
  obtain ⟨-, ⟨⟩⟩ := Option.ite_none_right_eq_some.mp h
  cases c with
  | sched k => simp [Alive]
  | lthread b => by_cases hb : b = a <;> simp [Alive, hb]

theorem Callers.free (hs : s.Callers) (h : hostCallStep s (.free a) = some s') :
    s'.Callers := by
  have halive := alive_free h
  obtain ⟨hexit, ⟨⟩⟩ := Option.ite_none_right_eq_some.mp h
  obtain ⟨hcr, hidle, hheld⟩ := hs.places.parked a (by simp [hexit])
  refine ⟨hs.slots.remove hcr halive rfl rfl rfl rfl, ?_⟩
  have hqueued := (hs.places.placeOf a).not_queued_of_parked (by simp [hexit])
  refine hs.places.move a (fun b hb => ?_) ?_ hs.places.queuedOnce hs.places.schedAt
  · exact ⟨.rfl, fun _ => .rfl, fun _ => .rfl, update_of_ne hb _ _,
      update_of_ne hb _ _, rfl⟩
  · refine placeOf_unheld hheld (fun hmem => absurd hmem hqueued)
      (fun hp => absurd (update_self _ _ _) hp) (fun _ => hidle) fun n hn => ?_
    cases hidle.symm.trans hn

/-! ## Steps of the wrappers and of the host -/

structure Frame (s s' : HostCallSys) : Prop where
  max : s'.maxsyscalls = s.maxsyscalls
  free : s'.freeslots = s.freeslots
  owner : s'.slotlthreads = s.slotlthreads
  syscall : s'.syscall = s.syscall
  created : s'.created = s.created
  cur : s'.cur = s.cur
  queue : s'.schedulerQueue = s.schedulerQueue
  parked : s'.parked = s.parked

theorem Frame.alive (h : s.Frame s') (c : Caller) : s'.Alive c ↔ s.Alive c := by
  cases c <;> simp [Alive, h.cur, h.created]

theorem Frame.callers_iff (h : s.Frame s') (hs : s.Callers)
    (hp : Places { s with pc := s'.pc }) : s'.Callers where
  slots := hs.slots.congr h.alive h.syscall h.free h.owner h.max
  places := by
    obtain ⟨h₁, h₂, h₃, h₄, h₅, h₆, h₇, h₈, h₉, h₁₀⟩ := hp
    constructor <;> simp only [Holds, h.queue, h.cur, h.created, h.parked] at * <;> assumption

theorem Callers.wrapper (hs : s.Callers) {pc : CallPc} (hk : s.caller k = some c)
    (hframe : s.Frame s') (hy : ∀ n, pc ≠ .yielded n) (hw : ∀ n, pc ≠ .waiting n)
    (hpc : s'.pc = update s.pc c pc) : s'.Callers := by
  refine hframe.callers_iff hs ?_
  rw [hpc]
  rcases caller_eq_some hk with ⟨rfl, hown⟩ | ⟨a, rfl, hrun⟩
  · -- the scheduler's own call: the lthreads stay where they are
    refine places_of hs.places.queuedOnce (fun b => (hs.places.placeOf b).congr
      ⟨.rfl, fun _ => .rfl, fun _ => .rfl, rfl, rfl, rfl⟩) fun j => ?_
    by_cases hj : j = k
    · subst hj
      simp [SchedAt, hown, hy, hw]
    · have hne : Caller.sched j ≠ .sched k := fun h => hj (Caller.sched.inj h)
      simpa [SchedAt, update_of_ne hne] using hs.places.schedAt j
  · obtain ⟨hcr, hno, -, -⟩ := hs.places.running k a hrun
    have hqueued := (hs.places.placeOf a).not_queued (.inl hrun)
    refine hs.places.move a (fun b hb => ?_) ?_ hs.places.queuedOnce hs.places.schedAt
    · exact ⟨.rfl, fun _ => .rfl, fun _ => .rfl, rfl, rfl,
        update_of_ne (lthread_ne hb) _ _⟩
    · refine placeOf_running hrun (fun j hj => hs.places.once j k a hj (.inl hrun)) hqueued hcr hno
        ?_ ?_
      all_goals
        show ∀ n, update s.pc (.lthread a) pc (.lthread a) ≠ _
        rw [update_self]
        assumption

theorem Callers.congr (hs : s.Callers) (hframe : s.Frame s') (hpc : s'.pc = s.pc) :
    s'.Callers := by
  refine hframe.callers_iff hs ?_
  rw [hpc]
  exact hs.places

theorem callStep_cases (h : s.callStep k c = some s') :
    (∃ a next, c = .lthread a ∧ s.pc c = .switch next ∧ s.async c = true ∧
      s' = (s.setPc c (.yielded next)).setCur k (.switched a)) ∨
    s.Frame s' ∧ ∃ pc, (∀ n, pc ≠ .yielded n) ∧ (∀ n, pc ≠ .waiting n) ∧
      s'.pc = update s.pc c pc := by
  simp only [callStep] at h
  cases hpc : s.pc c with
  | idle | leave next | yielded next | waiting next => simp [hpc] at h
  | fill req next | submit next | readRet next =>
    simp only [hpc, Option.some.injEq] at h
    subst h
    exact .inr ⟨⟨rfl, rfl, rfl, rfl, rfl, rfl, rfl, rfl⟩, _, by simp, by simp, rfl⟩
  | switch next =>
    simp only [hpc] at h
    split at h
    · rename_i hasync
      cases c with
      | sched k' => cases h
      | lthread a => exact .inl ⟨a, next, rfl, rfl, hasync, (Option.some.inj h).symm⟩
    · simp only [Option.some.injEq] at h
      subst h
      refine .inr ⟨⟨rfl, rfl, rfl, rfl, rfl, rfl, rfl, rfl⟩, _, ?_, ?_, rfl⟩
      all_goals split <;> simp
  | spin next =>
    simp only [hpc, Option.ite_none_right_eq_some, Option.some.injEq] at h
    obtain ⟨-, rfl⟩ := h
    exact .inr ⟨⟨rfl, rfl, rfl, rfl, rfl, rfl, rfl, rfl⟩, _, by simp, by simp, rfl⟩
  | clear ret next =>
    simp only [hpc, Option.some.injEq] at h
    subst h
    refine .inr ⟨⟨rfl, rfl, rfl, rfl, rfl, rfl, rfl, rfl⟩, _, ?_, ?_, rfl⟩
    all_goals cases next <;> simp

section

variable (hs : s.Callers)

include hs

theorem Callers.switch (hk : s.caller k = some (.lthread a)) :
    ((s.setPc (.lthread a) (.yielded next)).setCur k (.switched a)).Callers := by
  have hrun : s.cur k = .running a := by
    rcases caller_eq_some hk with ⟨h, -⟩ | ⟨b, h, hrun⟩
    · cases h
    · cases h
      exact hrun
  obtain ⟨hcr, hno, -, -⟩ := hs.places.running k a hrun
  have hqueued := (hs.places.placeOf a).not_queued (.inl hrun)
  refine ⟨hs.slots.congr (alive_setCur _ _ (by simp [setPc, hrun]) (by simp)) rfl rfl rfl rfl, ?_⟩
  refine hs.places.move a (fun b hb => ?_) ?_ hs.places.queuedOnce
    (schedAt_setCur hs.places rfl (fun _ => rfl) (fun _ => hs.places.own k (by simp [hrun])))
  · exact stays_setCur rfl (not_holds_of_ne (.inl hrun) hb) (by simp [hb.symm]) .rfl rfl rfl
      (update_of_ne (lthread_ne hb) _ _)
  · exact placeOf_switched (update_self _ _ _) (hs.places.only (.inl (.inl hrun)) rfl)
      hqueued hcr hno (update_self _ _ _)

theorem callback_cases (h : hostCallStep s (.callback k) = some s') :
    ∃ a next, s.cur k = .switched a ∧ s.created a = true ∧ s.pc (.lthread a) = .yielded next ∧
      s' = ({ s with syscallQueue := s.syscallQueue ++ [s.syscall (.lthread a)] }.setCur k
        .own).setPc (.lthread a) (.waiting next) := by
  simp only [hostCallStep] at h
  split at h
  · rename_i a hsw
    obtain ⟨hcr, -, next, hpc⟩ := hs.places.switched k a hsw
    simp only [hpc, Option.some.injEq] at h
    exact ⟨a, next, hsw, hcr, hpc, h.symm⟩
  · cases h

theorem Callers.callback (h : hostCallStep s (.callback k) = some s') : s'.Callers := by
  obtain ⟨a, next, hsw, hcr, hpc, rfl⟩ := callback_cases hs h
  obtain ⟨-, hno, -⟩ := hs.places.switched k a hsw
  have hqueued := (hs.places.placeOf a).not_queued (.inr hsw)
  refine ⟨hs.slots.congr (alive_setCur (s := s) _ _ (by simp [hsw]) (by simp)) rfl rfl rfl rfl, ?_⟩
  refine hs.places.move a (fun b hb => ?_) ?_ hs.places.queuedOnce
    (schedAt_setCur hs.places rfl (fun _ => rfl) (fun hne => absurd rfl hne))
  · exact stays_setCur rfl (not_holds_of_ne (.inr hsw) hb) ⟨nofun, nofun⟩ .rfl rfl rfl
      (update_of_ne (lthread_ne hb) _ _)
  · refine placeOf_unheld (hs.places.unheld (.inr hsw) rfl) (fun hmem => absurd hmem hqueued)
      (fun hp => absurd hno hp) (fun hnew => ?_) fun n hn => ?_
    · cases hcr.symm.trans hnew
    · cases (update_self _ _ _).symm.trans hn

theorem Callers.resumeFrom (hown : s.cur k = .own) (hidle : s.pc (.sched k) = .idle)
    (howner : s.slottolthread i = .ok a) (hcr : s.created a = true)
    (hpc : s.pc (.lthread a) = .waiting next) : (s.resumeFrom k i).Callers := by
  have halive := alive_setCur (s := s) k (.running a) (by simp [hown]) (by simp)
  simp only [HostCallSys.resumeFrom, howner, setCur, setRecord, hpc, setPc]
  refine ⟨hs.slots.congr halive rfl rfl rfl rfl, ?_⟩
  obtain ⟨hno, hqueued, hheld⟩ := (hs.places.placeOf a).of_waiting hpc
  refine hs.places.move a (fun b hb => ?_) ?_ hs.places.queuedOnce
    (schedAt_setCur hs.places rfl (fun _ => rfl) (fun _ => hidle))
  · exact stays_setCur rfl (not_holds_of_own hown) (by simp [hb.symm]) .rfl rfl rfl
      (update_of_ne (lthread_ne hb) _ _)
  · refine placeOf_running (update_self _ _ _) (hs.places.only (.inr hheld) rfl) hqueued
      hcr hno ?_ ?_
    all_goals exact fun n hn => by cases (update_self _ _ _).symm.trans hn

/-! ## Every step but the one that reads the return queue -/

/-- **The callers are kept**, whatever the host has written to the slots and the queues. -/
theorem Callers.step {l : HostCallLabel} (hl : ∀ k, l ≠ .resumeSlot k)
    (h : hostCallStep s l = some s') : s'.Callers := by
  cases l with
  | start k i => exact hs.start h
  | create a i => exact hs.create h
  | yield k =>
    obtain ⟨a, ha, rfl⟩ := Option.map_eq_some_iff.mp h
    exact hs.yield ha
  | sleep k | exit k =>
    obtain ⟨a, ha, rfl⟩ := Option.map_eq_some_iff.mp h
    exact hs.park ha
  | pin k b =>
    obtain ⟨a, -, rfl⟩ := Option.map_eq_some_iff.mp h
    exact hs.congr ⟨rfl, rfl, rfl, rfl, rfl, rfl, rfl, rfl⟩ rfl
  | wake a => exact hs.wake h
  | free a => exact hs.free h
  | resume k => exact hs.resume h
  | resumeSlot k => exact absurd rfl (hl k)
  | call k req grow =>
    obtain ⟨c, hk, h⟩ := Option.bind_eq_some_iff.mp h
    cases hpc : s.pc c <;> simp only [hpc, reduceCtorEq, Option.some.injEq] at h
    subst h
    refine hs.wrapper hk ⟨rfl, rfl, rfl, rfl, rfl, rfl, rfl, rfl⟩ ?_ ?_ rfl
    all_goals cases grow <;> simp
  | go k =>
    obtain ⟨c, hk, h⟩ := Option.bind_eq_some_iff.mp h
    rcases callStep_cases h with ⟨a, next, rfl, -, -, rfl⟩ | ⟨hframe, pc, hy, hw, hpc⟩
    · exact hs.switch hk
    · exact hs.wrapper hk hframe hy hw hpc
  | hostExit k ret =>
    obtain ⟨c, hk, h⟩ := Option.bind_eq_some_iff.mp h
    cases hpc : s.pc c <;> simp only [hpc, reduceCtorEq, Option.some.injEq] at h
    subst h
    exact hs.wrapper hk ⟨rfl, rfl, rfl, rfl, rfl, rfl, rfl, rfl⟩ (by simp) (by simp) rfl
  | callback k => exact hs.callback h
  | hostTake t =>
    simp only [hostCallStep] at h
    split at h <;> cases h
    exact hs.congr ⟨rfl, rfl, rfl, rfl, rfl, rfl, rfl, rfl⟩ rfl
  | hostExec t ret =>
    simp only [hostCallStep] at h
    split at h <;> cases h
    exact hs.congr ⟨rfl, rfl, rfl, rfl, rfl, rfl, rfl, rfl⟩ rfl
  | hostCheck t =>
    simp only [hostCallStep] at h
    split at h <;> cases h
    exact hs.congr ⟨rfl, rfl, rfl, rfl, rfl, rfl, rfl, rfl⟩ rfl
  | hostFinish t =>
    simp only [hostCallStep] at h
    split at h <;> cases h <;> exact hs.congr ⟨rfl, rfl, rfl, rfl, rfl, rfl, rfl, rfl⟩ rfl

end

end RktIo.Host.HostCallSys
