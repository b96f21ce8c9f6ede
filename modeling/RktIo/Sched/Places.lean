import RktIo.Sched.LthreadSys

/-!
# Where an lthread is

The references to an lthread are spread over the schedulers, the scheduler queue,
`futex_queues`, the queues of the host calls and the `lt_join` fields. `Loc` names the place
of an lthread, and for each of these structures a predicate says that it holds exactly the
lthreads whose place it is.

## The architecture

* `SchedPlaced`, `QueuePlaced`, `FutexPlaced`, `HostPlaced` — one structure each;
* **`frame`** — each predicate is kept when lthreads move between places that its structure
  does not hold (`SameAt`);
* the other lemmas — each predicate is kept when an lthread moves and its structure is
  updated with it.

An lthread that is cancelled may have a second entry in the scheduler queue, and any number
of schedulers may be about to find it cancelled.
-/

namespace RktIo.Sched

open Walk Function List

inductive Loc where
  /-- Not created, or freed. -/
  | nowhere
  | running (k : Nat)
  | syncWait (k : Nat)
  /-- Switched out on scheduler `k`, its yield callback has still to run. -/
  | pending (k : Nat) (cb : YieldCb)
  | queued
  | futex
  | host
  | joiner (t : Lt)
  | exiting (k : Nat)
  | unlocked (k : Nat)
  | done
  /-- Found cancelled by a scheduler. -/
  | dropped
  deriving Repr, DecidableEq

variable {L : Loc}

namespace Loc

def sched : Loc → Option Nat
  | running k | syncWait k | pending k _ | exiting k | unlocked k => some k
  | _ => none

def inQueue : Loc → Bool
  | queued => true
  | _ => false

def inFutex : Loc → Bool
  | futex | pending _ .futexUnlock => true
  | _ => false

def inHost : Loc → Bool
  | host | syncWait _ => true
  | _ => false

def inJoin : Loc → Bool
  | joiner _ | pending _ (.unlock _) | exiting _ | unlocked _ | done => true
  | _ => false

def live : Loc → Bool
  | nowhere => false
  | _ => true

def seen : Loc → Bool
  | exiting _ | unlocked _ => true
  | _ => false

def exited : Loc → Bool
  | exiting _ | unlocked _ | done => true
  | _ => false

theorem eq_done (hex : L.exited = true) (hseen : L.seen = false) : L = .done := by
  cases L <;> simp_all [exited, seen]

end Loc

variable {a : Lt}

namespace SchedState

def lthread : SchedState → Option Lt
  | idle => none
  | resuming a | starting a | running a | syncWait a | switched a _ | exiting a
  | unlocked a => some a

def loc (k : Nat) : SchedState → Loc
  | idle => .nowhere
  | resuming _ | starting _ | running _ => .running k
  | syncWait _ => .syncWait k
  | switched _ cb => .pending k cb
  | exiting _ => .exiting k
  | unlocked _ => .unlocked k

theorem sched_loc {st : SchedState} (h : st.lthread = some a) (k : Nat) :
    (st.loc k).sched = some k := by
  cases st with
  | idle => cases h
  | resuming | starting | running | syncWait | switched | exiting | unlocked => rfl

end SchedState

def SameAt (p : Loc → Bool) (loc loc' : Lt → Loc) : Prop :=
  ∀ a, loc' a = loc a ∨ (p (loc a) = false ∧ p (loc' a) = false)

theorem SameAt.refl (p : Loc → Bool) (loc : Lt → Loc) : SameAt p loc loc := fun _ => Or.inl rfl

variable {loc : Lt → Loc}

theorem SameAt.update {p : Loc → Bool}
    (ha : p (loc a) = false) (hL : p L = false) : SameAt p loc (update loc a L) := by
  intro b
  rw [update_apply]
  split
  · rename_i hb
    exact Or.inr ⟨hb ▸ ha, hL⟩
  · exact Or.inl rfl

theorem SameAt.move {p : Loc → Bool} {L' : Loc} (ha : loc a = L)
    (hL : p L = false) (hL' : p L' = false) : SameAt p loc (Function.update loc a L') :=
  SameAt.update (ha ▸ hL) hL'

def SameFields {α : Type} (π : Lthread → α) (lts lts' : Lt → Lthread) : Prop :=
  ∀ a, π (lts' a) = π (lts a)

theorem SameFields.refl {α : Type} (π : Lthread → α) (lts : Lt → Lthread) :
    SameFields π lts lts := fun _ => rfl

variable {c : Lthread}

variable {lts : Lt → Lthread}

theorem SameFields.update {α : Type} {π : Lthread → α} {t : Lt}
    (hc : π c = π (lts t)) : SameFields π lts (update lts t c) := by
  intro a
  rw [update_apply]
  split
  · rename_i ha
    rw [ha, hc]
  · rfl

theorem SameFields.cancelled {lts' : Lt → Lthread} (h : SameFields Lthread.cancelled lts lts') :
    ∀ b, (lts b).cancelled = true → (lts' b).cancelled = true :=
  fun b hb => (h b).trans hb

/-! ## Schedulers -/

structure SchedPlaced (scheds : Nat → SchedState) (lts : Lt → Lthread) (loc : Lt → Loc) :
    Prop where
  sched : ∀ k a, (scheds k).lthread = some a →
    loc a = (scheds k).loc k ∨ (scheds k = .resuming a ∧ (lts a).cancelled = true)
  placed : ∀ k a, (loc a).sched = some k →
    (scheds k).lthread = some a ∧ loc a = (scheds k).loc k

namespace SchedPlaced

variable {scheds : Nat → SchedState} {lts lts' : Lt → Lthread} {loc loc' : Lt → Loc}
  {k : Nat} {a : Lt} {st : SchedState} {L : Loc}

section

variable (h : SchedPlaced scheds lts loc)

include h

theorem frame (hc : ∀ b, (lts b).cancelled = true → (lts' b).cancelled = true)
    (hloc : SameAt (fun L => L.sched.isSome) loc loc') : SchedPlaced scheds lts' loc' where
  sched := by
    intro k a hk
    rcases h.sched k a hk with ha | ⟨hr, ha⟩
    · rcases hloc a with he | ⟨hno, -⟩
      · exact Or.inl (he.trans ha)
      · simp [ha, SchedState.sched_loc hk] at hno
    · exact Or.inr ⟨hr, hc a ha⟩
  placed := by
    intro k a hk
    rcases hloc a with he | ⟨-, hno⟩
    · rw [he] at hk ⊢
      exact h.placed k a hk
    · simp [hk] at hno

theorem move (hk : ∀ b, (scheds k).lthread = some b → b = a)
    (ha : ∀ j, (loc a).sched = some j → j = k)
    (hst : (st.lthread = some a ∧ L = st.loc k) ∨ (st = .idle ∧ L.sched = none))
    (hc : ∀ b, (lts b).cancelled = true → (lts' b).cancelled = true) :
    SchedPlaced (update scheds k st) lts' (update loc a L) where
  sched := by
    intro j b hj
    rcases eq_or_ne j k with rfl | hjk
    · rw [update_self] at hj ⊢
      rcases hst with ⟨hst, hL⟩ | ⟨rfl, -⟩
      · obtain rfl : a = b := Option.some.inj (hst.symm.trans hj)
        rw [update_self]
        exact Or.inl hL
      · cases hj
    · rw [update_of_ne hjk] at hj ⊢
      rcases h.sched j b hj with hb | ⟨hr, hb⟩
      · have hba : b ≠ a := by
          rintro rfl
          exact hjk (ha j (hb ▸ SchedState.sched_loc hj j))
        rw [update_of_ne hba]
        exact Or.inl hb
      · exact Or.inr ⟨hr, hc b hb⟩
  placed := by
    intro j b hb
    rcases eq_or_ne b a with rfl | hba
    · rw [update_self] at hb ⊢
      rcases hst with ⟨hst, rfl⟩ | ⟨-, hL⟩
      · obtain rfl : k = j := Option.some.inj ((SchedState.sched_loc hst k).symm.trans hb)
        rw [update_self]
        exact ⟨hst, rfl⟩
      · rw [hL] at hb
        cases hb
    · rw [update_of_ne hba] at hb ⊢
      have hj := h.placed j b hb
      have hjk : j ≠ k := by
        rintro rfl
        exact hba (hk b hj.1)
      rw [update_of_ne hjk]
      exact hj

theorem step (ha : (loc a).sched = some k)
    (hst : (st.lthread = some a ∧ L = st.loc k) ∨ (st = .idle ∧ L.sched = none))
    (hc : ∀ b, (lts b).cancelled = true → (lts' b).cancelled = true) :
    SchedPlaced (update scheds k st) lts' (update loc a L) :=
  h.move (fun _ hb => Option.some.inj (hb.symm.trans (h.placed k a ha).1))
    (fun _ hj => Option.some.inj (hj.symm.trans ha)) hst hc

theorem stay (hk : ∀ a, (loc a).sched ≠ some k)
    (hst : st = .idle ∨ ∃ a, st = .resuming a ∧ (lts a).cancelled = true)
    (hc : ∀ b, (lts b).cancelled = true → (lts' b).cancelled = true) :
    SchedPlaced (update scheds k st) lts' loc where
  sched := by
    intro j b hj
    rcases eq_or_ne j k with rfl | hjk
    · rw [update_self] at hj ⊢
      rcases hst with rfl | ⟨a, rfl, ha⟩
      · cases hj
      · obtain rfl : a = b := Option.some.inj hj
        exact Or.inr ⟨rfl, hc a ha⟩
    · rw [update_of_ne hjk] at hj ⊢
      exact (h.sched j b hj).imp_right (And.imp_right (hc b))
  placed := by
    intro j b hb
    have hjk : j ≠ k := by
      rintro rfl
      exact hk b hb
    rw [update_of_ne hjk]
    exact h.placed j b hb

end

end SchedPlaced

/-! ## The scheduler queue -/

/-- The scheduler queue has each queued lthread once; a further entry is that of a cancelled
lthread. -/
structure QueuePlaced (schedQueue : List Lt) (lts : Lt → Lthread) (loc : Lt → Loc) : Prop where
  queued : ∀ a, loc a = .queued → a ∈ schedQueue
  entry : ∀ a ∈ schedQueue, loc a = .queued ∨ (lts a).cancelled = true
  nodup : schedQueue.Nodup

namespace QueuePlaced

variable {queue : List Lt} {lts lts' : Lt → Lthread} {loc loc' : Lt → Loc} {a : Lt}

section

variable (h : QueuePlaced queue lts loc)
  (hc : ∀ b, (lts b).cancelled = true → (lts' b).cancelled = true)

include h hc

theorem frame (hloc : SameAt Loc.inQueue loc loc') : QueuePlaced queue lts' loc' where
  queued := by
    intro a ha
    rcases hloc a with he | ⟨-, hno⟩
    · exact h.queued a (he.symm.trans ha)
    · simp [ha, Loc.inQueue] at hno
  entry := by
    intro a ha
    rcases h.entry a ha with hq | hcan
    · rcases hloc a with he | ⟨hno, -⟩
      · exact Or.inl (he.trans hq)
      · simp [hq, Loc.inQueue] at hno
    · exact Or.inr (hc a hcan)
  nodup := h.nodup

theorem enqueue {ts : List Lt} (hts : ts.Nodup) (hnew : ∀ b ∈ ts, b ∉ queue)
    (hin : ∀ b ∈ ts, loc' b = .queued ∨ (lts' b).cancelled = true)
    (hout : ∀ b, b ∉ ts → (loc' b = .queued ↔ loc b = .queued)) :
    QueuePlaced (queue ++ ts) lts' loc' where
  queued := by
    intro b hb
    by_cases hbt : b ∈ ts
    · exact mem_append_right _ hbt
    · exact mem_append_left _ (h.queued b ((hout b hbt).mp hb))
  entry := by
    intro b hb
    by_cases hbt : b ∈ ts
    · exact hin b hbt
    · have hbq := (mem_append.mp hb).resolve_right hbt
      exact (h.entry b hbq).imp (hout b hbt).mpr (hc b)
  nodup := by
    refine nodup_append.mpr ⟨h.nodup, hts, ?_⟩
    rintro b hb c hct rfl
    exact hnew b hct hb

end

theorem dequeue (h : QueuePlaced (a :: queue) lts loc) (ha : loc' a ≠ .queued)
    (hloc : ∀ b, b ≠ a → loc' b = loc b) : QueuePlaced queue lts loc' where
  queued := by
    intro b hb
    have hba : b ≠ a := by
      rintro rfl
      exact ha hb
    rw [hloc b hba] at hb
    exact (mem_cons.mp (h.queued b hb)).resolve_left hba
  entry := by
    intro b hb
    have hba : b ≠ a := by
      rintro rfl
      exact (nodup_cons.mp h.nodup).1 hb
    rw [hloc b hba]
    exact h.entry b (mem_cons_of_mem a hb)
  nodup := (nodup_cons.mp h.nodup).2

end QueuePlaced

/-! ## `futex_queues` -/

/-- `futex_queues` has the sleeping lthreads, each once and under its own name, and one that
is on its way there holds `futex_q_lock`. -/
structure FutexPlaced (futexQueues : List FutexQ) (futexLocked : Bool) (loc : Lt → Loc) :
    Prop where
  owners : ∀ a, a ∈ futexQueues.map FutexQ.owner ↔ (loc a).inFutex = true
  nodup : (futexQueues.map FutexQ.owner).Nodup
  named : ∀ e ∈ futexQueues.map FutexQ.ident, e.2 = some e.1
  locked : ∀ a k, loc a = .pending k .futexUnlock → futexLocked = true
  unique : ∀ a k b j, loc a = .pending k .futexUnlock → loc b = .pending j .futexUnlock → a = b

namespace FutexPlaced

variable {fqs : List FutexQ} {locked : Bool} {loc loc' : Lt → Loc} {a : Lt} {k : Nat}

theorem frame (h : FutexPlaced fqs locked loc) (hloc : SameAt Loc.inFutex loc loc') :
    FutexPlaced fqs locked loc' := by
  have heq : ∀ a, (loc' a).inFutex = true → loc' a = loc a := by
    intro a ha
    exact (hloc a).resolve_right (fun hno => by simp [ha] at hno)
  have hpend : ∀ a k, loc' a = .pending k .futexUnlock → loc a = .pending k .futexUnlock := by
    intro a k ha
    rw [← heq a (by rw [ha]; rfl), ha]
  refine ⟨?_, h.nodup, h.named, fun a k ha => h.locked a k (hpend a k ha),
    fun a k b j ha hb => h.unique a k b j (hpend a k ha) (hpend b j hb)⟩
  intro a
  rw [h.owners a]
  rcases hloc a with he | ⟨h1, h2⟩
  · rw [he]
  · rw [h1, h2]

theorem wait {fq : FutexQ} (h : FutexPlaced fqs false loc) (hfq : fq.ident = (a, some a))
    (ha : (loc a).inFutex = false) :
    FutexPlaced (fq :: fqs) true (update loc a (.pending k .futexUnlock)) where
  owners := by
    have howner : fq.owner = a := congrArg Prod.fst hfq
    intro b
    rw [map_cons, mem_cons, howner, h.owners b, update_apply]
    split <;> simp_all [Loc.inFutex]
  nodup := by
    have howner : fq.owner = a := congrArg Prod.fst hfq
    rw [map_cons, nodup_cons, howner, h.owners a, ha]
    exact ⟨Bool.false_ne_true, h.nodup⟩
  named := by
    rw [map_cons, hfq]
    exact forall_mem_cons.mpr ⟨rfl, h.named⟩
  locked := fun _ _ _ => rfl
  unique := by
    have hold : ∀ b j, update loc a (.pending k .futexUnlock) b = .pending j .futexUnlock →
        b = a := by
      intro b j hb
      by_contra hba
      rw [update_of_ne hba] at hb
      exact absurd (h.locked b j hb) Bool.false_ne_true
    intro b i c j hb hc
    rw [hold b i hb, hold c j hc]

theorem unlock (h : FutexPlaced fqs locked loc) (ha : loc a = .pending k .futexUnlock) :
    FutexPlaced fqs false (update loc a .futex) := by
  have hnone : ∀ b j, update loc a .futex b ≠ .pending j .futexUnlock := by
    intro b j hb
    rcases eq_or_ne b a with rfl | hba
    · rw [update_self] at hb
      cases hb
    · rw [update_of_ne hba] at hb
      exact hba (h.unique b j a k hb ha)
  refine ⟨?_, h.nodup, h.named, fun b j hb => absurd hb (hnone b j),
    fun b j _ _ hb => absurd hb (hnone b j)⟩
  intro b
  rw [h.owners b, update_apply]
  split <;> simp_all [Loc.inFutex]

theorem splits {kept unlinked : List FutexQ} (h : FutexPlaced fqs false loc)
    (hsplit : Splits fqs kept unlinked)
    (hin : ∀ b ∈ unlinked.map FutexQ.owner, loc' b = .queued)
    (hout : ∀ b, b ∉ unlinked.map FutexQ.owner → loc' b = loc b) :
    FutexPlaced kept false loc' := by
  have hnodup := (hsplit.owners.nodup_iff).mpr h.nodup
  have hmem : ∀ b, b ∈ kept.map FutexQ.owner ∨ b ∈ unlinked.map FutexQ.owner ↔
      (loc b).inFutex = true := by
    intro b
    rw [← h.owners b, ← mem_append]
    exact hsplit.owners.mem_iff
  have hnone : ∀ b j, loc' b ≠ .pending j .futexUnlock := by
    intro b j hb
    by_cases hbu : b ∈ unlinked.map FutexQ.owner
    · rw [hin b hbu] at hb
      cases hb
    · rw [hout b hbu] at hb
      exact absurd (h.locked b j hb) Bool.false_ne_true
  refine ⟨?_, hnodup.of_append_left, ?_, fun b j hb => absurd hb (hnone b j),
    fun b j _ _ hb => absurd hb (hnone b j)⟩
  · intro b
    by_cases hbu : b ∈ unlinked.map FutexQ.owner
    · have hbk : b ∉ kept.map FutexQ.owner :=
        fun hbk => disjoint_of_nodup_append hnodup hbk hbu
      simp [hin b hbu, hbk, Loc.inFutex]
    · rw [hout b hbu, ← hmem b]
      simp [hbu]
  · intro e he
    exact h.named e (hsplit.perm.subset (mem_append_left _ he))

end FutexPlaced

/-! ## Host calls -/

/-- The slots in flight are those of the lthreads that wait for a host call. The slot of one
that busy-waits has its status set, and is not put into the return queue. -/
structure HostPlaced (slotlthreads : Slot → Option Lt) (flight returnQueue : List Slot)
    (status : Slot → Nat) (lts : Lt → Lthread) (loc : Lt → Loc) : Prop where
  slots : ∀ sl a, slotlthreads sl = some a ↔ (lts a).live = true ∧ (lts a).slot = sl
  calls : ∀ a, loc a = .host → ∃ sl ∈ flight, slotlthreads sl = some a
  owner : ∀ sl ∈ flight, ∃ a, slotlthreads sl = some a ∧
    (loc a = .host ∧ status sl = 0 ∨
      (∃ k, loc a = .syncWait k) ∧ status sl = 1 ∧ sl ∉ returnQueue)
  nodup : flight.Nodup
  sync : ∀ sl, status sl ≠ 0 → ∃ a k, slotlthreads sl = some a ∧ loc a = .syncWait k

namespace HostPlaced

variable {slotlthreads : Slot → Option Lt} {flight flight' ret ret' : List Slot}
  {status : Slot → Nat} {lts lts' : Lt → Lthread} {loc loc' : Lt → Loc} {a : Lt} {sl : Slot}

section

variable (h : HostPlaced slotlthreads flight ret status lts loc)

include h

theorem inHost_of_owner (ha : slotlthreads sl = some a) (hsl : sl ∈ flight ∨ status sl ≠ 0) :
    (loc a).inHost = true := by
  rcases hsl with hsl | hsl
  · obtain ⟨b, hb, hl⟩ := h.owner sl hsl
    obtain rfl : a = b := Option.some.inj (ha.symm.trans hb)
    rcases hl with ⟨hl, -⟩ | ⟨⟨k, hl⟩, -⟩ <;> rw [hl] <;> rfl
  · obtain ⟨b, k, hb, hl⟩ := h.sync sl hsl
    obtain rfl : a = b := Option.some.inj (ha.symm.trans hb)
    rw [hl]
    rfl

theorem change {slotlthreads' : Slot → Option Lt}
    (hslots : ∀ sl a, slotlthreads' sl = some a ↔ (lts' a).live = true ∧ (lts' a).slot = sl)
    (hhost : ∀ a, loc' a = .host → loc a = .host)
    (hkeep : ∀ sl a, slotlthreads sl = some a → (loc a).inHost = true → slotlthreads' sl = some a ∧ loc' a = loc a) :
    HostPlaced slotlthreads' flight ret status lts' loc' where
  slots := hslots
  calls := by
    intro a ha
    obtain ⟨sl, hsl, hown⟩ := h.calls a (hhost a ha)
    exact ⟨sl, hsl, (hkeep sl a hown (h.inHost_of_owner hown (.inl hsl))).1⟩
  owner := by
    intro sl hsl
    obtain ⟨a, ha, hl⟩ := h.owner sl hsl
    obtain ⟨hown, hloc⟩ := hkeep sl a ha (h.inHost_of_owner ha (.inl hsl))
    exact ⟨a, hown, by rwa [hloc]⟩
  nodup := h.nodup
  sync := by
    intro sl hsl
    obtain ⟨a, k, ha, hl⟩ := h.sync sl hsl
    obtain ⟨hown, hloc⟩ := hkeep sl a ha (h.inHost_of_owner ha (.inr hsl))
    exact ⟨a, k, hown, by rw [hloc, hl]⟩

theorem frame (hlts : SameFields (fun c => (c.live, c.slot)) lts lts')
    (hloc : SameAt Loc.inHost loc loc') : HostPlaced slotlthreads flight ret status lts' loc' := by
  have heq : ∀ a, (loc a).inHost = true ∨ (loc' a).inHost = true → loc' a = loc a := by
    intro a ha
    exact (hloc a).resolve_right (fun hno => by simp [hno] at ha)
  refine h.change (fun sl a => ?_) (fun a ha => ?_) fun sl a hsl ha => ⟨hsl, heq a (Or.inl ha)⟩
  · obtain ⟨hlive, hslot⟩ := Prod.mk.inj (hlts a)
    rw [hlive, hslot]
    exact h.slots sl a
  · rw [← heq a (Or.inr (by rw [ha]; rfl)), ha]

theorem idle_slot (hlive : (lts a).live = true) (ha : (loc a).inHost = false) :
    (lts a).slot ∉ flight ∧ status (lts a).slot = 0 := by
  have hslot : slotlthreads (lts a).slot = some a := (h.slots _ a).mpr ⟨hlive, rfl⟩
  have hno : ¬ ((lts a).slot ∈ flight ∨ status (lts a).slot ≠ 0) := by
    intro hsl
    rw [h.inHost_of_owner hslot hsl] at ha
    cases ha
  exact ⟨fun hmem => hno (.inl hmem), by_contra fun hne => hno (.inr hne)⟩

end

theorem host_of_update {b : Lt} (hL : L.inHost = false)
    (hb : update loc a L b = .host) : b ≠ a ∧ loc b = .host := by
  have hba : b ≠ a := by
    rintro rfl
    rw [update_self] at hb
    simp [hb, Loc.inHost] at hL
  rw [update_of_ne hba] at hb
  exact ⟨hba, hb⟩

section

variable (h : HostPlaced slotlthreads flight ret status lts loc)

include h

theorem other_owner (hsl : slotlthreads sl = some a) :
    ∀ sl' b, slotlthreads sl' = some b → sl' ≠ sl → b ≠ a := by
  rintro sl' b hb hne rfl
  exact hne (((h.slots sl' b).mp hb).2.symm.trans ((h.slots sl b).mp hsl).2)

theorem perm (hflight : flight'.Perm flight) (hret : ∀ sl ∈ ret', sl ∈ ret ∨ status sl ≠ 1) :
    HostPlaced slotlthreads flight' ret' status lts loc where
  slots := h.slots
  calls := by
    intro a ha
    obtain ⟨sl, hsl, hown⟩ := h.calls a ha
    exact ⟨sl, hflight.mem_iff.mpr hsl, hown⟩
  owner := by
    intro sl hsl
    obtain ⟨a, ha, hl⟩ := h.owner sl (hflight.mem_iff.mp hsl)
    refine ⟨a, ha, hl.imp_right ?_⟩
    rintro ⟨hk, h1, hno⟩
    exact ⟨hk, h1, fun hsl => (hret sl hsl).elim hno (fun hne => hne h1)⟩
  nodup := hflight.nodup_iff.mpr h.nodup
  sync := h.sync

theorem submit {v : Nat} (hlive : (lts a).live = true) (ha : (loc a).inHost = false)
    (hL : (L = .host ∧ v = 0) ∨ ((∃ k, L = .syncWait k) ∧ v = 1)) (hret : ∀ sl ∈ ret, sl ∈ flight)
    (hflight : flight'.Perm ((lts a).slot :: flight)) :
    HostPlaced slotlthreads flight' ret (update status (lts a).slot v) lts
      (update loc a L) := by
  obtain ⟨hnot, -⟩ := h.idle_slot hlive ha
  have hslot : slotlthreads (lts a).slot = some a := (h.slots _ a).mpr ⟨hlive, rfl⟩
  have hother := h.other_owner hslot
  refine ⟨h.slots, ?_, ?_, ?_, ?_⟩
  · intro b hb
    rcases eq_or_ne b a with rfl | hba
    · exact ⟨(lts b).slot, hflight.mem_iff.mpr mem_cons_self, hslot⟩
    · rw [update_of_ne hba] at hb
      obtain ⟨sl, hsl, hown⟩ := h.calls b hb
      exact ⟨sl, hflight.mem_iff.mpr (mem_cons_of_mem _ hsl), hown⟩
  · intro sl hsl
    rcases eq_or_ne sl (lts a).slot with rfl | hne
    · refine ⟨a, hslot, ?_⟩
      rw [update_self, update_self]
      exact hL.imp_right (fun hL => ⟨hL.1, hL.2, fun hmem => hnot (hret _ hmem)⟩)
    · have hold := (mem_cons.mp (hflight.mem_iff.mp hsl)).resolve_left hne
      obtain ⟨b, hb, hl⟩ := h.owner sl hold
      refine ⟨b, hb, ?_⟩
      rwa [update_of_ne (hother sl b hb hne), update_of_ne hne]
  · exact hflight.nodup_iff.mpr (nodup_cons.mpr ⟨hnot, h.nodup⟩)
  · intro sl hsl
    rcases eq_or_ne sl (lts a).slot with rfl | hne
    · rw [update_self] at hsl
      obtain ⟨-, hv⟩ | ⟨⟨k, hk⟩, -⟩ := hL
      · exact absurd hv hsl
      · exact ⟨a, k, hslot, by rw [update_self, hk]⟩
    · rw [update_of_ne hne] at hsl
      obtain ⟨b, k, hb, hl⟩ := h.sync sl hsl
      exact ⟨b, k, hb, by rw [update_of_ne (hother sl b hb hne), hl]⟩

theorem leave (hflight : flight.Perm (sl :: flight')) (hret : ∀ sl ∈ ret', sl ∈ ret)
    (hsl : slotlthreads sl = some a) (hst : status sl = 0) (hL : L.inHost = false) :
    HostPlaced slotlthreads flight' ret' status lts (update loc a L) := by
  obtain ⟨hnot, hnodup⟩ := nodup_cons.mp (hflight.nodup_iff.mp h.nodup)
  have hother := h.other_owner hsl
  refine ⟨h.slots, ?_, ?_, hnodup, ?_⟩
  · intro b hb
    obtain ⟨hba, hb⟩ := host_of_update hL hb
    obtain ⟨sl', hsl', hown⟩ := h.calls b hb
    refine ⟨sl', (mem_cons.mp (hflight.mem_iff.mp hsl')).resolve_left ?_, hown⟩
    rintro rfl
    exact hba (Option.some.inj (hown.symm.trans hsl))
  · intro sl' hsl'
    obtain ⟨b, hb, hl⟩ := h.owner sl' (hflight.mem_iff.mpr (mem_cons_of_mem _ hsl'))
    have hne : sl' ≠ sl := by
      rintro rfl
      exact hnot hsl'
    refine ⟨b, hb, ?_⟩
    rw [update_of_ne (hother sl' b hb hne)]
    exact hl.imp_right (fun hl => ⟨hl.1, hl.2.1, fun hmem => hl.2.2 (hret sl' hmem)⟩)
  · intro sl' hsl'
    obtain ⟨b, k, hb, hl⟩ := h.sync sl' hsl'
    have hne : sl' ≠ sl := by
      rintro rfl
      exact hsl' hst
    exact ⟨b, k, hb, by rw [update_of_ne (hother sl' b hb hne), hl]⟩

theorem served (hflight : flight.Perm (sl :: flight')) (hsl : status sl = 1) :
    HostPlaced slotlthreads flight' ret (update status sl 2) lts loc := by
  obtain ⟨hnot, hnodup⟩ := nodup_cons.mp (hflight.nodup_iff.mp h.nodup)
  obtain ⟨a, ha, hl⟩ := h.owner sl (hflight.mem_iff.mpr mem_cons_self)
  obtain ⟨⟨k, hk⟩, -⟩ := hl.resolve_left (fun hl => by simp [hsl] at hl)
  refine ⟨h.slots, ?_, ?_, hnodup, ?_⟩
  · intro b hb
    obtain ⟨sl', hsl', hown⟩ := h.calls b hb
    refine ⟨sl', (mem_cons.mp (hflight.mem_iff.mp hsl')).resolve_left ?_, hown⟩
    rintro rfl
    -- the owner of the slot busy-waits
    obtain rfl : a = b := Option.some.inj (ha.symm.trans hown)
    rw [hk] at hb
    cases hb
  · intro sl' hsl'
    have hne : sl' ≠ sl := by
      rintro rfl
      exact hnot hsl'
    rw [update_of_ne hne]
    exact h.owner sl' (hflight.mem_iff.mpr (mem_cons_of_mem _ hsl'))
  · intro sl' hsl'
    rcases eq_or_ne sl' sl with rfl | hne
    · exact ⟨a, k, ha, hk⟩
    · rw [update_of_ne hne] at hsl'
      exact h.sync sl' hsl'

theorem syncDone (hsl : slotlthreads sl = some a) (hst : status sl = 2) (hL : L.inHost = false) :
    HostPlaced slotlthreads flight ret (update status sl 0) lts
      (update loc a L) := by
  have hnot : sl ∉ flight := by
    intro hmem
    obtain ⟨b, -, hl⟩ := h.owner sl hmem
    rcases hl with ⟨-, hl⟩ | ⟨-, hl, -⟩ <;> omega
  have hother := h.other_owner hsl
  have hne : ∀ sl' ∈ flight, sl' ≠ sl := by
    rintro sl' hmem rfl
    exact hnot hmem
  refine ⟨h.slots, ?_, ?_, h.nodup, ?_⟩
  · intro b hb
    obtain ⟨-, hb⟩ := host_of_update hL hb
    exact h.calls b hb
  · intro sl' hsl'
    obtain ⟨b, hb, hl⟩ := h.owner sl' hsl'
    refine ⟨b, hb, ?_⟩
    rwa [update_of_ne (hother sl' b hb (hne sl' hsl')),
      update_of_ne (hne sl' hsl')]
  · intro sl' hsl'
    rcases eq_or_ne sl' sl with rfl | hne'
    · rw [update_self] at hsl'
      exact absurd rfl hsl'
    · rw [update_of_ne hne'] at hsl'
      obtain ⟨b, k, hb, hl⟩ := h.sync sl' hsl'
      exact ⟨b, k, hb, by rw [update_of_ne (hother sl' b hb hne'), hl]⟩

theorem create (hsl : slotlthreads sl = none) (ha : (lts a).live = false)
    (hc : c.live = true) (hslot : c.slot = sl) (hL : L.inHost = false) :
    HostPlaced (update slotlthreads sl (some a)) flight ret status (update lts a c)
      (update loc a L) := by
  refine h.change (fun sl' b => ?_) (fun b hb => (host_of_update hL hb).2) fun sl' b hb _ => ?_
  · simp only [update_apply]
    have hold := h.slots sl' b
    split <;> split <;> grind
  · have hne : sl' ≠ sl := by
      rintro rfl
      cases hsl.symm.trans hb
    have hba : b ≠ a := by
      rintro rfl
      cases ha.symm.trans ((h.slots sl' b).mp hb).1
    rw [update_of_ne hne, update_of_ne hba]
    exact ⟨hb, rfl⟩

theorem free (hlive : (lts a).live = true) (ha : (loc a).inHost = false)
    (hc : c.live = false) (hL : L.inHost = false) :
    HostPlaced (update slotlthreads (lts a).slot none) flight ret status (update lts a c)
      (update loc a L) := by
  have hown := (h.slots _ a).mpr ⟨hlive, rfl⟩
  refine h.change (fun sl b => ?_) (fun b hb => (host_of_update hL hb).2) fun sl b hb hin => ?_
  · simp only [update_apply]
    have hb := h.slots sl b
    have ha := h.slots sl a
    split <;> split <;> grind
  · have hba : b ≠ a := by
      rintro rfl
      cases ha.symm.trans hin
    have hne : sl ≠ (lts a).slot := by
      rintro rfl
      exact hba (Option.some.inj (hb.symm.trans hown))
    rw [update_of_ne hne, update_of_ne hba]
    exact ⟨hb, rfl⟩

end

end HostPlaced

/-! ## Joins -/

/-- `lt_join` names the lthreads that wait for another one to exit. The lock keeps an
lthread from exiting while its joiner is on its way, a joiner is woken before the target is
unlocked, and the caller of `lthread_join` that gets past the lock is alone. -/
structure JoinPlaced (lts : Lt → Lthread) (loc : Lt → Loc) : Prop where
  joiner : ∀ t a, (lts t).ltJoin = some a ↔
    loc a = .joiner t ∨ ∃ k, loc a = .pending k (.unlock t)
  busyExit : ∀ t k, loc t = .exiting k → (lts t).busy = true
  busyJoin : ∀ a k t, loc a = .pending k (.unlock t) →
    (lts t).busy = true ∧ ∀ j, loc t ≠ .exiting j
  calls : ∀ t a, a ∈ (lts t).joinCalls ↔ (lts a).cont = .locking t
  user : ∀ a, (lts a).exited = true → (lts a).cont = .user
  joined : ∀ a t, (lts a).cont = .joining t →
    (lts t).joinedBy = some a ∧ ((lts t).ltJoin = some a ∨ (lts t).exited = true)
  registered : ∀ t a, (lts t).ltJoin = some a →
    (lts a).cont = .joining t ∧ loc t ≠ .done ∧ ∀ k, loc t ≠ .unlocked k
  detached : ∀ t, (lts t).detach = true → (lts t).joinedBy = none ∧ (lts t).joinCalls = []

def Lthread.joinFields (c : Lthread) :
    Bool × Bool × Bool × Option Lt × Cont × List Lt × Option Lt :=
  (c.exited, c.busy, c.detach, c.ltJoin, c.cont, c.joinCalls, c.joinedBy)

namespace JoinPlaced

variable {lts lts' : Lt → Lthread} {loc loc' : Lt → Loc} {a t : Lt} {k : Nat}

section

variable (h : JoinPlaced lts loc)

include h

theorem frame (hlts : SameFields Lthread.joinFields lts lts') (hloc : SameAt Loc.inJoin loc loc') :
    JoinPlaced lts' loc' := by
  obtain ⟨h1, h2, h3, h4, h5, h6, h7, h8⟩ := h
  simp only [SameFields, Lthread.joinFields, Prod.mk.injEq] at hlts
  have hin : ∀ a, (loc a).inJoin = true ∨ (loc' a).inJoin = true → loc' a = loc a := by
    intro a ha
    exact (hloc a).resolve_right (fun hno => by simp [hno] at ha)
  constructor <;> grind -ring -linarith [Loc.inJoin]

theorem call (ha : (lts a).cont = .user) (hex : (lts a).exited = false)
    (ht : (lts t).detach = false)
    (hsame : SameFields (fun c => (c.exited, c.busy, c.detach, c.ltJoin, c.joinedBy)) lts lts')
    (hcont : ∀ b, (lts' b).cont = if b = a then .locking t else (lts b).cont)
    (hcalls : ∀ b, (lts' b).joinCalls = if b = t then a :: (lts t).joinCalls else (lts b).joinCalls) :
    JoinPlaced lts' loc := by
  simp only [SameFields, Prod.mk.injEq] at hsame
  obtain ⟨h1, h2, h3, h4, h5, h6, h7, h8⟩ := h
  constructor <;> grind -ring -linarith

theorem ltJoin_ne (ha : (loc a).inJoin = false) (t : Lt) : (lts t).ltJoin ≠ some a := by
  intro ht
  rcases (h.joiner t a).mp ht with hl | ⟨k, hl⟩ <;> simp [hl, Loc.inJoin] at ha

theorem leave (hc : { lts a with cont := c.cont }.joinFields = c.joinFields)
    (hcont : c.cont = .user) (ha : (loc a).inJoin = false)
    (hcalls : ∀ t, (lts a).cont ≠ .locking t) : JoinPlaced (update lts a c) loc := by
  have hno := h.ltJoin_ne ha
  simp only [Lthread.joinFields, Prod.mk.injEq] at hc
  obtain ⟨h1, h2, h3, h4, h5, h6, h7, h8⟩ := h
  constructor <;> grind -ring -linarith [update_apply]

section

variable (ha : (lts a).cont = .locking t)

include ha

theorem lockEinval (hloc : (loc a).inJoin = false)
    (hsame : SameFields (fun c => (c.exited, c.busy, c.detach, c.ltJoin, c.joinedBy)) lts lts')
    (hcont : ∀ b, (lts' b).cont = if b = a then .user else (lts b).cont)
    (hcalls : ∀ b, (lts' b).joinCalls = if b = t then (lts t).joinCalls.filter (· ≠ a) else (lts b).joinCalls) :
    JoinPlaced lts' loc := by
  have hno := h.ltJoin_ne hloc
  simp only [SameFields, Prod.mk.injEq] at hsame
  obtain ⟨h1, h2, h3, h4, h5, h6, h7, h8⟩ := h
  constructor <;> grind -ring -linarith

theorem lockExited (ht : (lts t).exited = true) (hjoin : (lts t).joinedBy = none)
    (hloc : (loc a).inJoin = false)
    (hsame : SameFields (fun c => (c.exited, c.busy, c.detach, c.ltJoin)) lts lts')
    (hcont : ∀ b, (lts' b).cont = if b = a then .joining t else (lts b).cont)
    (hcalls : ∀ b, (lts' b).joinCalls = if b = t then (lts t).joinCalls.filter (· ≠ a) else (lts b).joinCalls)
    (hby : ∀ b, (lts' b).joinedBy = if b = t then some a else (lts b).joinedBy) :
    JoinPlaced lts' loc := by
  have hno := h.ltJoin_ne hloc
  have hmem := (h.calls t a).mpr ha
  simp only [SameFields, Prod.mk.injEq] at hsame
  obtain ⟨h1, h2, h3, h4, h5, h6, h7, h8⟩ := h
  constructor <;> grind -ring -linarith

theorem lockRegister (ht : (lts t).exited = false) (hloct : (loc t).exited = false)
    (hjoin : (lts t).ltJoin = none) (hloc : (loc a).inJoin = false)
    (hsame : SameFields (fun c => (c.exited, c.detach)) lts lts')
    (hbusy : ∀ b, (lts' b).busy = if b = t then true else (lts b).busy)
    (hltJoin : ∀ b, (lts' b).ltJoin = if b = t then some a else (lts b).ltJoin)
    (hcont : ∀ b, (lts' b).cont = if b = a then .joining t else (lts b).cont)
    (hcalls : ∀ b, (lts' b).joinCalls = if b = t then (lts t).joinCalls.filter (· ≠ a) else (lts b).joinCalls)
    (hby : ∀ b, (lts' b).joinedBy = if b = t then some a else (lts b).joinedBy) :
    JoinPlaced lts' (update loc a (.pending k (.unlock t))) := by
  have hno := h.ltJoin_ne hloc
  have hmem := (h.calls t a).mpr ha
  have hdone : loc t ≠ .done := fun hl => by simp [hl, Loc.exited] at hloct
  have hexit : ∀ k, loc t ≠ .unlocked k ∧ loc t ≠ .exiting k := by
    intro k
    constructor <;> intro hl <;> simp [hl, Loc.exited] at hloct
  simp only [SameFields, Prod.mk.injEq] at hsame
  obtain ⟨h1, h2, h3, h4, h5, h6, h7, h8⟩ := h
  constructor <;> grind -ring -linarith [update_apply]

end

theorem unlock (ha : loc a = .pending k (.unlock t)) :
    JoinPlaced (update lts t { lts t with busy := false })
      (update loc a (.joiner t)) := by
  have hjoin : (lts t).ltJoin = some a := (h.joiner t a).mpr (Or.inr ⟨k, ha⟩)
  have hone : ∀ b j, loc b = .pending j (.unlock t) → b = a := by
    intro b j hb
    exact Option.some.inj (((h.joiner t b).mpr (Or.inr ⟨j, hb⟩)).symm.trans hjoin)
  obtain ⟨h1, h2, h3, h4, h5, h6, h7, h8⟩ := h
  constructor <;> grind -ring -linarith [update_apply]

theorem exit (hc : { lts t with exited := true, busy := true }.joinFields = c.joinFields)
    (hcont : (lts t).cont = .user) (hbusy : (lts t).busy = false) (ht : (loc t).inJoin = false) :
    JoinPlaced (update lts t c) (update loc t (.exiting k)) := by
  have hno := h.ltJoin_ne ht
  simp only [Lthread.joinFields, Prod.mk.injEq] at hc
  obtain ⟨h1, h2, h3, h4, h5, h6, h7, h8⟩ := h
  constructor <;> grind -ring -linarith [update_apply]

theorem finish (hc : { lts t with ltJoin := none, busy := false }.joinFields = c.joinFields)
    (ht : loc t = .exiting k) (hex : (lts t).exited = true)
    (hin : ∀ a, (lts t).ltJoin = some a → loc' a = .queued)
    (hout : ∀ a, a ≠ t → (lts t).ltJoin ≠ some a → loc' a = loc a) (hloct : loc' t = .unlocked k) :
    JoinPlaced (update lts t c) loc' := by
  simp only [Lthread.joinFields, Prod.mk.injEq] at hc
  obtain ⟨h1, h2, h3, h4, h5, h6, h7, h8⟩ := h
  constructor <;> grind -ring -linarith [update_apply]

theorem done (ht : loc t = .unlocked k) (hex : (lts t).exited = true) :
    JoinPlaced lts (update loc t .done) := by
  obtain ⟨h1, h2, h3, h4, h5, h6, h7, h8⟩ := h
  constructor <;> grind -ring -linarith [update_apply]

theorem free (hex : (lts t).exited = true) (hjoin : (lts t).ltJoin = none)
    (hcalls : (lts t).joinCalls = []) (hjoined : ∀ a, (lts a).cont ≠ .joining t) :
    JoinPlaced (update lts t .freed) (update loc t .nowhere) := by
  obtain ⟨h1, h2, h3, h4, h5, h6, h7, h8⟩ := h
  constructor <;> grind -ring -linarith [update_apply, Lthread.freed]

theorem detach (hc : { lts t with detach := c.detach }.joinFields = c.joinFields)
    (hjoin : (lts t).joinedBy = none) (hcalls : (lts t).joinCalls = []) :
    JoinPlaced (update lts t c) loc := by
  simp only [Lthread.joinFields, Prod.mk.injEq] at hc
  obtain ⟨h1, h2, h3, h4, h5, h6, h7, h8⟩ := h
  constructor <;> grind -ring -linarith [update_apply]

end

end JoinPlaced

/-! ## Flags -/

/-- The flags of an lthread are those of its place. One that is cancelled has been started,
is not detached and nobody joins it. -/
structure Lthread.Fits (c : Lthread) (L : Loc) : Prop where
  dead : L = .nowhere → c = .freed
  live : c.live = L.live
  exited : c.exited = L.exited
  seen : c.seen = L.seen
  dropped : L = .dropped → c.cancelled = true
  cancelled : c.cancelled = true →
    c.new = false ∧ c.detach = false ∧ c.joinedBy = none ∧ c.joinCalls = []

section

variable (h : ∀ b, (lts b).Fits (loc b))

include h

theorem Lthread.fits_update (hc : c.Fits L) : ∀ b, (update lts a c b).Fits (update loc a L b) := by
  intro b
  rcases eq_or_ne b a with rfl | hba
  · rw [update_self, update_self]
    exact hc
  · rw [update_of_ne hba, update_of_ne hba]
    exact h b

theorem Lthread.fits_lts (hc : c.Fits (loc a)) : ∀ b, (update lts a c b).Fits (loc b) := by
  have hall := Lthread.fits_update (a := a) h hc
  rwa [update_eq_self] at hall

theorem Lthread.fits_loc (hL : (lts a).Fits L) : ∀ b, (lts b).Fits (update loc a L b) := by
  have hall := Lthread.fits_update (a := a) h hL
  rwa [update_eq_self] at hall

end

def Lthread.fitsFields (c : Lthread) :
    Bool × Bool × Bool × Bool × Bool × Bool × Option Lt × List Lt :=
  (c.live, c.exited, c.seen, c.cancelled, c.new, c.detach, c.joinedBy, c.joinCalls)

theorem Lthread.Fits.set {c' : Lthread} (h : c.Fits L) (hL : L.live = true)
    (heq : c'.fitsFields = c.fitsFields) : c'.Fits L := by
  simp only [Lthread.fitsFields, Prod.mk.injEq] at heq
  obtain ⟨hlive, hex, hseen, hcan, hnew, hdet, hby, hcalls⟩ := heq
  constructor
  · rintro rfl
    cases hL
  · rw [hlive, h.live]
  · rw [hex, h.exited]
  · rw [hseen, h.seen]
  · rw [hcan]
    exact h.dropped
  · rw [hcan, hnew, hdet, hby, hcalls]
    exact h.cancelled

theorem Lthread.Fits.move {L' : Loc} (h : c.Fits L) (hL : L.live = true) (hlive : L'.live = true)
    (hexited : L'.exited = L.exited) (hseen : L'.seen = L.seen) (hdropped : L' ≠ .dropped) :
    c.Fits L' where
  dead := by
    rintro rfl
    cases hlive
  live := by rw [h.live, hL, hlive]
  exited := by rw [h.exited, hexited]
  seen := by rw [h.seen, hseen]
  dropped := fun hd => absurd hd hdropped
  cancelled := h.cancelled

theorem Lthread.fits_move {L' : Loc} (h : ∀ b, (lts b).Fits (loc b)) (ha : loc a = L)
    (hL : L.live = true) (hlive : L'.live = true) (hexited : L'.exited = L.exited)
    (hseen : L'.seen = L.seen) (hdropped : L' ≠ .dropped) : ∀ b, (lts b).Fits (update loc a L' b) :=
  Lthread.fits_loc h ((ha ▸ h a).move hL hlive hexited hseen hdropped)

end RktIo.Sched
