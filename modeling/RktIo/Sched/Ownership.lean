import RktIo.Sched.Places

/-!
# Every step keeps lthreads at their places

`LthreadSys.Owned` says that every reference to an lthread is at the place that `loc` names.
A step moves at most the lthreads it works on: for each kind of step a lemma gives the new
places, and **`LthreadSys.Owned.step`** collects them.

Two things can break the places, and the conditions on the steps exclude them: a join or a
detach of an lthread that somebody else frees (`joinSafe`), and a cancelled lthread that is
put into the scheduler queue while it is still there (`cancelSafe`).
-/

namespace RktIo.Sched

open Walk Transition Function List

/-- Every reference to an lthread is at the place that `loc` names. -/
structure LthreadSys.Owned (s : LthreadSys) (loc : Lt → Loc) : Prop where
  sched : SchedPlaced s.scheds s.lts loc
  queue : QueuePlaced s.schedQueue s.lts loc
  futex : FutexPlaced s.futexQueues s.futexLocked loc
  host : HostPlaced s.slotlthreads (s.syscallQueue ++ s.host ++ s.returnQueue) s.returnQueue
    s.status s.lts loc
  join : JoinPlaced s.lts loc
  fits : ∀ a, (s.lts a).Fits (loc a)
  cancels : ∀ a ∈ s.cancels, (s.lts a).cancelled = true
  freedOnce : s.doubleFree = false

variable {f : Lthread → Lthread} {slot : Slot} {L : Loc} {c : Cont}

namespace LthreadSys.Owned

variable {s s' : LthreadSys} {loc : Lt → Loc} {k : Nat} {a t : Lt}

theorem initial (alwaysSync : Bool) :
    (LthreadSys.initial alwaysSync).Owned (fun _ => .nowhere) where
  sched := by constructor <;> simp [LthreadSys.initial, SchedState.lthread, Loc.sched]
  queue := by constructor <;> simp [LthreadSys.initial]
  futex := by constructor <;> simp [LthreadSys.initial, Loc.inFutex]
  host := by constructor <;> simp [LthreadSys.initial, Lthread.freed]
  join := by constructor <;> simp [LthreadSys.initial, Lthread.freed]
  fits := fun _ => by
    constructor <;> simp [LthreadSys.initial, Lthread.freed, Loc.live, Loc.exited, Loc.seen]
  cancels := by simp [LthreadSys.initial]
  freedOnce := rfl

/-! ## What the invariant says about the lthread of a step -/

section

variable (hs : s.Owned loc)

include hs

theorem loc_of_sched {st : SchedState} (hk : s.scheds k = st) (ha : st.lthread = some a)
    (hne : st ≠ .resuming a) : loc a = st.loc k := by
  subst hk
  exact (hs.sched.sched k a ha).resolve_right (fun h => hne h.1)

theorem loc_of_running (hk : s.scheds k = .running a) : loc a = .running k :=
  hs.loc_of_sched hk rfl (by simp)

theorem live_iff (a : Lt) : (s.lts a).live = true ↔ loc a ≠ .nowhere := by
  rw [(hs.fits a).live]
  cases loc a <;> simp [Loc.live]

theorem nowhere (ht : (s.lts t).live = false) : loc t = .nowhere := by
  by_contra hne
  rw [(hs.live_iff t).mpr hne] at ht
  cases ht

theorem ltJoin_of_cancelled (ht : (s.lts t).cancelled = true) : (s.lts t).ltJoin = none := by
  rw [Option.eq_none_iff_forall_ne_some]
  intro b hb
  have hby := (hs.join.joined b t (hs.join.registered t b hb).1).1
  rw [((hs.fits t).cancelled ht).2.2.1] at hby
  cases hby

/-! ## Steps that move no lthread -/

theorem setLts {lts' : Lt → Lthread} (hc : SameFields Lthread.cancelled s.lts lts')
    (hslot : SameFields Lthread.slot s.lts lts') (hjoin : JoinPlaced lts' loc)
    (hfits : ∀ b, (lts' b).Fits (loc b)) : { s with lts := lts' }.Owned loc where
  sched := hs.sched.frame hc.cancelled (SameAt.refl _ _)
  queue := hs.queue.frame hc.cancelled (SameAt.refl _ _)
  futex := hs.futex
  host := by
    refine hs.host.frame (fun b => ?_) (SameAt.refl _ _)
    exact Prod.ext ((hfits b).live.trans (hs.fits b).live.symm) (hslot b)
  join := hjoin
  fits := hfits
  cancels := fun b hb => hc.cancelled b (hs.cancels b hb)
  freedOnce := hs.freedOnce

theorem modify (hjoin : (f (s.lts a)).joinFields = (s.lts a).joinFields)
    (hcan : (f (s.lts a)).cancelled = (s.lts a).cancelled)
    (hslot : (f (s.lts a)).slot = (s.lts a).slot) (hfits : (f (s.lts a)).Fits (loc a)) :
    (s.modify a f).Owned loc :=
  hs.setLts (SameFields.update hcan) (SameFields.update hslot)
    (hs.join.frame (SameFields.update hjoin) (SameAt.refl _ _)) (Lthread.fits_lts hs.fits hfits)

theorem setSched_same {st : SchedState} (hloc : loc a = .running k) (hst : st.lthread = some a)
    (hL : st.loc k = .running k) : (s.setSched k st).Owned loc :=
  { hs with
    sched := by
      have h := hs.sched.step (k := k) (a := a) (L := .running k) (by rw [hloc]; rfl)
        (Or.inl ⟨hst, hL.symm⟩) (fun _ hb => hb)
      rwa [← hloc, update_eq_self] at h }

/-! ## Steps of a running lthread -/

theorem switch {cb : YieldCb} (hloc : loc a = .running k) (hcb : cb = .resched ∨ cb = .submit) :
    (s.setSched k (.switched a cb)).Owned (update loc a (.pending k cb)) :=
  { hs with
    sched := hs.sched.step (by rw [hloc]; rfl) (Or.inl ⟨rfl, rfl⟩) (fun _ hb => hb)
    queue := hs.queue.frame (fun _ hb => hb) (SameAt.move hloc rfl rfl)
    futex := hs.futex.frame
      (SameAt.move hloc rfl (by rcases hcb with rfl | rfl <;> rfl))
    host := hs.host.frame (SameFields.refl _ _) (SameAt.move hloc rfl rfl)
    join := hs.join.frame (SameFields.refl _ _)
      (SameAt.move hloc rfl (by rcases hcb with rfl | rfl <;> rfl))
    fits := Lthread.fits_move hs.fits hloc rfl rfl rfl rfl (by simp) }

theorem futexWait {fq : FutexQ} (hloc : loc a = .running k) (hfq : fq.ident = (a, some a))
    (h : s.futexWait k a fq = some s') : s'.Owned (update loc a (.pending k .futexUnlock)) := by
  unfold LthreadSys.futexWait at h
  split at h
  · cases h
  · rename_i hlock
    cases h
    have hlocked : s.futexLocked = false := by simpa using hlock
    exact { hs with
      sched := hs.sched.step (by rw [hloc]; rfl) (Or.inl ⟨rfl, rfl⟩) (fun _ hb => hb)
      queue := hs.queue.frame (fun _ hb => hb) (SameAt.move hloc rfl rfl)
      futex := (hlocked ▸ hs.futex).wait hfq (by rw [hloc]; rfl)
      host := hs.host.frame (SameFields.refl _ _) (SameAt.move hloc rfl rfl)
      join := hs.join.frame (SameFields.refl _ _) (SameAt.move hloc rfl rfl)
      fits := Lthread.fits_move hs.fits hloc rfl rfl rfl rfl (by simp) }

end

theorem returnQueue_subset (s : LthreadSys) :
    ∀ sl ∈ s.returnQueue, sl ∈ s.syscallQueue ++ s.host ++ s.returnQueue :=
  fun _ hsl => mem_append_right _ hsl

theorem submit_perm (s : LthreadSys) (slot : Slot) :
    (s.syscallQueue ++ [slot] ++ s.host ++ s.returnQueue).Perm
      (slot :: (s.syscallQueue ++ s.host ++ s.returnQueue)) := by
  rw [perm_iff_count]
  intro x
  simp only [count_append, count_cons, count_nil]
  omega

theorem hostCall (hs : s.Owned loc) (hloc : loc a = .running k) :
    ∃ loc', (s.hostCall k a).Owned loc' := by
  have hlive : (s.lts a).live = true := (hs.live_iff a).mpr (by simp [hloc])
  unfold LthreadSys.hostCall
  dsimp only
  split
  · exact ⟨_, hs.switch hloc (Or.inr rfl)⟩
  · refine ⟨update loc a (.syncWait k), { hs with
      sched := hs.sched.step (by rw [hloc]; rfl) (Or.inl ⟨rfl, rfl⟩) (fun _ hb => hb)
      queue := hs.queue.frame (fun _ hb => hb) (SameAt.move hloc rfl rfl)
      futex := hs.futex.frame (SameAt.move hloc rfl rfl)
      host := ?_
      join := hs.join.frame (SameFields.refl _ _) (SameAt.move hloc rfl rfl)
      fits := Lthread.fits_move hs.fits hloc rfl rfl rfl rfl (by simp) }⟩
    refine hs.host.submit hlive (by rw [hloc]; rfl) (Or.inr ⟨⟨k, rfl⟩, rfl⟩)
      (returnQueue_subset s) (submit_perm s (s.lts a).slot)

theorem syncDone (hs : s.Owned loc) (hk : s.scheds k = .syncWait a)
    (hst : s.status (s.lts a).slot = 2) :
    ({ s with status := update s.status (s.lts a).slot 0 }.setSched k
      (.running a)).Owned (update loc a (.running k)) := by
  have hloc : loc a = .syncWait k := hs.loc_of_sched hk rfl (by simp)
  have hlive : (s.lts a).live = true := (hs.live_iff a).mpr (by simp [hloc])
  exact { hs with
    sched := hs.sched.step (by rw [hloc]; rfl) (Or.inl ⟨rfl, rfl⟩) (fun _ hb => hb)
    queue := hs.queue.frame (fun _ hb => hb) (SameAt.move hloc rfl rfl)
    futex := hs.futex.frame (SameAt.move hloc rfl rfl)
    host := hs.host.syncDone ((hs.host.slots _ a).mpr ⟨hlive, rfl⟩) hst rfl
    join := hs.join.frame (SameFields.refl _ _) (SameAt.move hloc rfl rfl)
    fits := Lthread.fits_move hs.fits hloc rfl rfl rfl rfl (by simp) }

theorem exit (hs : s.Owned loc) (hloc : loc a = .running k) (hcont : (s.lts a).cont = .user)
    (hbusy : (s.lts a).busy = false) :
    ((s.modify a (fun c => { c with exited := true, busy := true, seen := true })).setSched k
      (.exiting a)).Owned (update loc a (.exiting k)) := by
  have hfits := hs.fits a
  have hc : SameFields Lthread.cancelled s.lts
    (s.modify a (fun c => { c with exited := true, busy := true, seen := true })).lts :=
    SameFields.update rfl
  exact { hs with
    sched := hs.sched.step (by rw [hloc]; rfl) (Or.inl ⟨rfl, rfl⟩) hc.cancelled
    queue := hs.queue.frame hc.cancelled (SameAt.move hloc rfl rfl)
    futex := hs.futex.frame (SameAt.move hloc rfl rfl)
    host := hs.host.frame (SameFields.update rfl) (SameAt.move hloc rfl rfl)
    join := hs.join.exit rfl hcont hbusy (by rw [hloc]; rfl)
    fits := Lthread.fits_update hs.fits
      { dead := fun h => by cases h
        live := by rw [hfits.live, hloc]; rfl
        exited := rfl
        seen := rfl
        dropped := fun h => by cases h
        cancelled := hfits.cancelled }
    cancels := fun b hb => hc.cancelled b (hs.cancels b hb) }

/-! ## Creation -/

theorem create {detach : Bool} (hs : s.Owned loc) (ht : (s.lts t).live = false)
    (hslot : s.slotlthreads slot = none) :
    ({ s with
        lts := update s.lts t (.created slot detach)
        slotlthreads := update s.slotlthreads slot (some t) }.enqueue [t]).Owned
      (update loc t .queued) := by
  have hloc : loc t = .nowhere := hs.nowhere ht
  have hfreed : s.lts t = .freed := (hs.fits t).dead hloc
  have hc : SameFields Lthread.cancelled s.lts (update s.lts t (.created slot detach)) :=
    SameFields.update (by rw [hfreed]; rfl)
  have hnew : t ∉ s.schedQueue := by
    intro hmem
    rcases hs.queue.entry t hmem with hq | hcan
    · rw [hloc] at hq
      cases hq
    · rw [hfreed] at hcan
      cases hcan
  exact { hs with
    sched := hs.sched.frame hc.cancelled (SameAt.move hloc rfl rfl)
    queue := by
      refine hs.queue.enqueue hc.cancelled (nodup_singleton t) ?_ ?_ ?_
      · intro b hb
        rwa [mem_singleton.mp hb]
      · intro b hb
        rw [mem_singleton.mp hb, update_self]
        exact Or.inl rfl
      · intro b hb
        rw [update_of_ne (fun h => hb (mem_singleton.mpr h))]
    futex := hs.futex.frame (SameAt.move hloc rfl rfl)
    host := hs.host.create hslot ht rfl rfl rfl
    join := by
      have h := hs.join.detach (t := t) (c := .created slot detach) (by rw [hfreed]; rfl)
        (by rw [hfreed]; rfl) (by rw [hfreed]; rfl)
      exact h.frame (SameFields.refl _ _) (SameAt.move hloc rfl rfl)
    fits := Lthread.fits_update hs.fits (by
      constructor <;> simp [Lthread.created, Lthread.freed, Loc.live, Loc.exited, Loc.seen])
    cancels := fun b hb => hc.cancelled b (hs.cancels b hb) }

/-! ## Taking an lthread from a queue -/

def taken (s : LthreadSys) (loc : Lt → Loc) (k : Nat) (a : Lt) (L : Loc) : Loc :=
  if (s.lts a).cancelled then if loc a = L then .dropped else loc a else .running k

theorem take_sched (hs : s.Owned loc) (hk : s.scheds k = .idle) (hL : L.sched = none)
    (ha : loc a = L ∨ (s.lts a).cancelled = true) :
    SchedPlaced (update s.scheds k (.resuming a)) s.lts
      (update loc a (taken s loc k a L)) := by
  unfold taken
  have hnone : ∀ b, (loc b).sched ≠ some k := by
    intro b hb
    have h := (hs.sched.placed k b hb).1
    rw [hk] at h
    cases h
  split
  · rename_i hcan
    split
    · rename_i hla
      refine (hs.sched.frame (fun _ hb => hb) (SameAt.update (by simp [hla, hL]) rfl)).stay ?_
        (Or.inr ⟨a, rfl, hcan⟩) (fun _ hb => hb)
      intro b
      rw [update_apply]
      split
      · simp [Loc.sched]
      · exact hnone b
    · rw [update_eq_self]
      exact hs.sched.stay hnone (Or.inr ⟨a, rfl, hcan⟩) (fun _ hb => hb)
  · rename_i hcan
    have hla : loc a = L := ha.resolve_right hcan
    refine hs.sched.move ?_ ?_ (Or.inl ⟨rfl, rfl⟩) (fun _ hb => hb)
    · intro b hb
      rw [hk] at hb
      cases hb
    · intro j hj
      rw [hla, hL] at hj
      cases hj

theorem taken_ne (hL : L ≠ .dropped) (hLk : L.sched = none) : taken s loc k a L ≠ L := by
  unfold taken
  split
  · split
    · exact hL.symm
    · assumption
  · rintro rfl
    cases hLk

theorem taken_sameAt {p : Loc → Bool} (h : loc a = L ∨ (s.lts a).cancelled = true)
    (hL : p L = false) (hd : p .dropped = false) (hr : p (.running k) = false) :
    SameAt p loc (update loc a (taken s loc k a L)) := by
  unfold taken
  split
  · split
    · rename_i hla
      exact SameAt.update (by rw [hla, hL]) hd
    · rw [update_eq_self]
      exact SameAt.refl _ _
  · rename_i hcan
    exact SameAt.update (by rw [h.resolve_right hcan, hL]) hr

section

variable (hs : s.Owned loc)

include hs

theorem taken_fits (h : loc a = L ∨ (s.lts a).cancelled = true) (hlive : L.live = true)
    (hex : L.exited = false) (hseen : L.seen = false) :
    ∀ b, (s.lts b).Fits (update loc a (taken s loc k a L) b) := by
  have hfits := hs.fits a
  refine Lthread.fits_loc hs.fits ?_
  unfold taken
  split
  · rename_i hcan
    split
    · rename_i hla
      rw [hla] at hfits
      exact
        { dead := fun h => by cases h
          live := by rw [hfits.live, hlive]; rfl
          exited := by rw [hfits.exited, hex]; rfl
          seen := by rw [hfits.seen, hseen]; rfl
          dropped := fun _ => hcan
          cancelled := hfits.cancelled }
    · exact hfits
  · rename_i hcan
    rw [h.resolve_right hcan] at hfits
    exact hfits.move hlive rfl (by rw [hex]; rfl) (by rw [hseen]; rfl) (by simp)

theorem resume {queue : List Lt} (hk : s.scheds k = .idle) (hq : s.schedQueue = a :: queue) :
    ({ s with schedQueue := queue }.setSched k (.resuming a)).Owned
      (update loc a (taken s loc k a .queued)) := by
  have ha : loc a = .queued ∨ (s.lts a).cancelled = true :=
    hs.queue.entry a (by rw [hq]; exact mem_cons_self)
  exact { hs with
    sched := hs.take_sched hk rfl ha
    queue := by
      refine (hq ▸ hs.queue).dequeue ?_ (fun b hb => update_of_ne hb _ _)
      rw [update_self]
      exact taken_ne (by simp) rfl
    futex := hs.futex.frame (taken_sameAt ha rfl rfl rfl)
    host := hs.host.frame (SameFields.refl _ _) (taken_sameAt ha rfl rfl rfl)
    join := hs.join.frame (SameFields.refl _ _) (taken_sameAt ha rfl rfl rfl)
    fits := hs.taken_fits ha rfl rfl rfl }

theorem resumeRet {queue : List Slot} (hk : s.scheds k = .idle)
    (hq : s.returnQueue = slot :: queue) (ha : s.slotlthreads slot = some a) :
    ({ s with returnQueue := queue }.setSched k (.resuming a)).Owned
      (update loc a (taken s loc k a .host)) := by
  have hmem : slot ∈ s.returnQueue := by rw [hq]; exact mem_cons_self
  obtain ⟨b, hb, hl⟩ := hs.host.owner slot (returnQueue_subset s slot hmem)
  obtain rfl : a = b := Option.some.inj (ha.symm.trans hb)
  obtain ⟨hloc, hst⟩ := hl.resolve_right (fun hl => hl.2.2 hmem)
  have hla : loc a = .host ∨ (s.lts a).cancelled = true := Or.inl hloc
  have hperm : (s.syscallQueue ++ s.host ++ s.returnQueue).Perm
      (slot :: (s.syscallQueue ++ s.host ++ queue)) := by
    rw [hq]
    exact perm_middle
  exact { hs with
    sched := hs.take_sched hk rfl hla
    queue := hs.queue.frame (fun _ hb => hb) (taken_sameAt hla rfl rfl rfl)
    futex := hs.futex.frame (taken_sameAt hla rfl rfl rfl)
    host := by
      refine hs.host.leave hperm ?_ ha hst ?_
      · intro sl hsl
        rw [hq]
        exact mem_cons_of_mem _ hsl
      · unfold taken
        rw [if_pos hloc]
        split <;> rfl
    join := hs.join.frame (SameFields.refl _ _) (taken_sameAt hla rfl rfl rfl)
    fits := hs.taken_fits hla rfl rfl rfl }

theorem reap (hk : s.scheds k = .resuming t) (hlive : (s.lts t).live = true)
    (hcan : (s.lts t).cancelled = true) :
    ∃ loc', (((s.wakeJoiner t).modify t (fun c => { c with reaped := true })).setSched k
      .idle).Owned loc' := by
  have hjoin : (s.lts t).ltJoin = none := hs.ltJoin_of_cancelled hcan
  have hwake : s.wakeJoiner t = s.modify t (fun c => { c with ltJoin := none }) := by
    simp [LthreadSys.wakeJoiner, LthreadSys.enqueue, hjoin, LthreadSys.modify]
  rw [hwake, modify_modify]
  have hmod : (s.modify t (fun c => { c with ltJoin := none, reaped := true })).Owned loc :=
    hs.modify (by simp [Lthread.joinFields, hjoin]) rfl rfl
      ((hs.fits t).set (by rw [← (hs.fits t).live, hlive]) rfl)
  by_cases hloc : loc t = .running k
  · have hfits := hs.fits t
    exact ⟨update loc t .dropped, { hmod with
      sched := hmod.sched.step (by rw [hloc]; rfl) (Or.inr ⟨rfl, rfl⟩) (fun _ hb => hb)
      queue := hmod.queue.frame (fun _ hb => hb) (SameAt.move hloc rfl rfl)
      futex := hmod.futex.frame (SameAt.move hloc rfl rfl)
      host := hmod.host.frame (SameFields.refl _ _) (SameAt.move hloc rfl rfl)
      join := hmod.join.frame (SameFields.refl _ _) (SameAt.move hloc rfl rfl)
      fits := Lthread.fits_update hs.fits
        { dead := fun h => by cases h
          live := hlive
          exited := by rw [hloc] at hfits; exact hfits.exited
          seen := by rw [hloc] at hfits; exact hfits.seen
          dropped := fun _ => hcan
          cancelled := hfits.cancelled } }⟩
  · refine ⟨loc, { hmod with sched := hmod.sched.stay ?_ (Or.inl rfl) (fun _ hb => hb) }⟩
    intro b hb
    obtain ⟨hkb, hlb⟩ := hs.sched.placed k b hb
    rw [hk] at hkb hlb
    obtain rfl : t = b := Option.some.inj hkb
    exact hloc hlb

theorem check (hk : s.scheds k = .resuming t) (h : s.resume k t = some s') :
    ∃ loc', s'.Owned loc' := by
  unfold LthreadSys.resume at h
  dsimp only at h
  split at h
  · cases h
  · rename_i hlive
    simp only [Bool.not_eq_true', Bool.not_eq_false] at hlive
    split at h
    · rename_i hcan
      rw [if_neg (by simp [((hs.fits t).cancelled hcan).2.1])] at h
      cases h
      exact hs.reap hk hlive hcan
    · rename_i hcan
      cases h
      have hloc : loc t = .running k := by
        rcases hs.sched.sched k t (by rw [hk]; rfl) with hl | ⟨-, hl⟩
        · rw [hl, hk]
          rfl
        · exact absurd hl hcan
      exact ⟨loc, hs.setSched_same hloc rfl rfl⟩

theorem start (hk : s.scheds k = .starting t) (h : s.start k t = some s') : s'.Owned loc := by
  have hloc : loc t = .running k := hs.loc_of_sched hk rfl (by simp)
  unfold LthreadSys.start at h
  dsimp only at h
  split at h
  · cases h
  · split at h
    · rename_i hnew
      split at h
      · cases h
      · rename_i hbusy
        cases h
        -- a new lthread is neither exited, locked nor cancelled, so `_lthread_init` keeps the rest
        have hfits := hs.fits t
        have hcan : (s.lts t).cancelled = false := by
          by_contra hcan
          have := (hfits.cancelled (by simpa using hcan)).1
          rw [hnew] at this
          cases this
        have hex : (s.lts t).exited = false := by rw [hfits.exited, hloc]; rfl
        have hbusy' : (s.lts t).busy = false := by simpa using hbusy
        have hmod : (s.modify t Lthread.init).Owned loc := by
          refine hs.modify ?_ ?_ rfl ?_
          · simp [Lthread.joinFields, Lthread.init, hex, hbusy']
          · simp [Lthread.init, hcan]
          · rw [hloc] at hfits ⊢
            exact
              { dead := fun h => by cases h
                live := hfits.live
                exited := rfl
                seen := hfits.seen
                dropped := fun h => by cases h
                cancelled := fun h => by cases h }
        exact hmod.setSched_same hloc rfl rfl
    · cases h
      exact hs.setSched_same hloc rfl rfl

/-! ## Yield callbacks -/

theorem callback {cb : YieldCb} (hk : s.scheds k = .switched t cb)
    (hsafe : cb = .resched → (s.lts t).cancelled = true → t ∉ s.schedQueue)
    (h : s.callback k t cb = some s') : ∃ loc', s'.Owned loc' := by
  have hloc : loc t = .pending k cb := hs.loc_of_sched hk rfl (by simp)
  have hlive : (s.lts t).live = true := (hs.live_iff t).mpr (by simp [hloc])
  unfold LthreadSys.callback at h
  cases cb with
  | resched =>
    cases h
    have hnew : t ∉ s.schedQueue := by
      intro hmem
      rcases hs.queue.entry t hmem with hq | hcan
      · rw [hloc] at hq
        cases hq
      · exact hsafe rfl hcan hmem
    exact ⟨update loc t .queued, { hs with
      sched := hs.sched.step (by rw [hloc]; rfl) (Or.inr ⟨rfl, rfl⟩) (fun _ hb => hb)
      queue := by
        refine hs.queue.enqueue (fun _ hb => hb) (nodup_singleton t) ?_ ?_ ?_
        · intro b hb
          rwa [mem_singleton.mp hb]
        · intro b hb
          rw [mem_singleton.mp hb, update_self]
          exact Or.inl rfl
        · intro b hb
          rw [update_of_ne (fun h => hb (mem_singleton.mpr h))]
      futex := hs.futex.frame (SameAt.move hloc rfl rfl)
      host := hs.host.frame (SameFields.refl _ _) (SameAt.move hloc rfl rfl)
      join := hs.join.frame (SameFields.refl _ _) (SameAt.move hloc rfl rfl)
      fits := Lthread.fits_move hs.fits hloc rfl rfl rfl rfl (by simp) }⟩
  | submit =>
    cases h
    have hst := (hs.host.idle_slot hlive (by rw [hloc]; rfl)).2
    refine ⟨update loc t .host, { hs with
      sched := hs.sched.step (by rw [hloc]; rfl) (Or.inr ⟨rfl, rfl⟩) (fun _ hb => hb)
      queue := hs.queue.frame (fun _ hb => hb) (SameAt.move hloc rfl rfl)
      futex := hs.futex.frame (SameAt.move hloc rfl rfl)
      host := ?_
      join := hs.join.frame (SameFields.refl _ _) (SameAt.move hloc rfl rfl)
      fits := Lthread.fits_move hs.fits hloc rfl rfl rfl rfl (by simp) }⟩
    have hhost := hs.host.submit hlive (by rw [hloc]; rfl) (Or.inl ⟨rfl, rfl⟩)
      (returnQueue_subset s) (submit_perm s (s.lts t).slot)
    rw [← hst, update_eq_self] at hhost
    exact hhost
  | futexUnlock =>
    cases h
    exact ⟨update loc t .futex, { hs with
      sched := hs.sched.step (by rw [hloc]; rfl) (Or.inr ⟨rfl, rfl⟩) (fun _ hb => hb)
      queue := hs.queue.frame (fun _ hb => hb) (SameAt.move hloc rfl rfl)
      futex := hs.futex.unlock hloc
      host := hs.host.frame (SameFields.refl _ _) (SameAt.move hloc rfl rfl)
      join := hs.join.frame (SameFields.refl _ _) (SameAt.move hloc rfl rfl)
      fits := Lthread.fits_move hs.fits hloc rfl rfl rfl rfl (by simp) }⟩
  | unlock u =>
    dsimp only at h
    split at h
    · rename_i hlu
      cases h
      have hc : SameFields Lthread.cancelled s.lts
        (s.modify u (fun c => { c with busy := false })).lts := SameFields.update rfl
      have hlu' : (s.lts u).live = true := hlu
      have hfitsu := hs.fits u
      exact ⟨update loc t (.joiner u), { hs with
        sched := hs.sched.step (by rw [hloc]; rfl) (Or.inr ⟨rfl, rfl⟩) hc.cancelled
        queue := hs.queue.frame hc.cancelled (SameAt.move hloc rfl rfl)
        futex := hs.futex.frame (SameAt.move hloc rfl rfl)
        host := hs.host.frame (SameFields.update rfl) (SameAt.move hloc rfl rfl)
        join := hs.join.unlock hloc
        fits := by
          have h1 : ∀ b, (s.lts b).Fits (update loc t (.joiner u) b) :=
            Lthread.fits_move hs.fits hloc rfl rfl rfl rfl (by simp)
          exact Lthread.fits_lts h1 ((h1 u).set (by rw [← (h1 u).live, hlu']) rfl)
        cancels := fun b hb => hc.cancelled b (hs.cancels b hb) }⟩
    · cases h

/-! ## The host -/

theorem hostTake {queue : List Slot} (hq : s.syscallQueue = slot :: queue) :
    { s with syscallQueue := queue, host := s.host ++ [slot] }.Owned loc :=
  { hs with
    host := by
      refine hs.host.perm ?_ (fun sl hsl => Or.inl hsl)
      rw [hq, perm_iff_count]
      intro x
      simp only [count_append, count_cons, count_nil]
      omega }

end

theorem hostDone_perm {host : List Slot} (h : slot ∈ host) (q r : List Slot) :
    (q ++ host ++ r).Perm (slot :: (q ++ host.erase slot ++ r)) := by
  rw [perm_iff_count]
  intro x
  have hc := (perm_iff_count.mp (perm_cons_erase h)) x
  simp only [count_append, count_cons] at hc ⊢
  omega

theorem hostDoneSync (hs : s.Owned loc) (hmem : slot ∈ s.host) (hst : s.status slot = 1) :
    { s with
      host := s.host.erase slot
      status := update s.status slot 2 : LthreadSys }.Owned loc :=
  { hs with host := hs.host.served (hostDone_perm hmem s.syscallQueue s.returnQueue) hst }

theorem hostDone (hs : s.Owned loc) (hmem : slot ∈ s.host) (hst : s.status slot ≠ 1) :
    { s with
      host := s.host.erase slot
      returnQueue := s.returnQueue ++ [slot] : LthreadSys }.Owned loc := by
  refine { hs with host := hs.host.perm ?_ ?_ }
  · refine List.Perm.trans ?_ (hostDone_perm hmem s.syscallQueue s.returnQueue).symm
    rw [perm_iff_count]
    intro x
    simp only [count_append, count_cons, count_nil]
    omega
  · intro sl hsl
    rcases mem_append.mp hsl with hsl | hsl
    · exact Or.inl hsl
    · rw [mem_singleton.mp hsl]
      exact Or.inr hst

/-! ## Futex walks -/

theorem futexWalk {σ : Type} {r : Walked FutexQ σ} (hs : s.Owned loc)
    (hsplit : Splits s.futexQueues r.kept r.unlinked)
    (hsafe : ∀ b ∈ r.unlinked.map FutexQ.owner, (s.lts b).cancelled = true → b ∉ s.schedQueue)
    (h : s.futexWalk r = some s') : ∃ loc', s'.Owned loc' := by
  unfold LthreadSys.futexWalk at h
  split at h
  · cases h
  · rename_i hlock
    have hlocked : s.futexLocked = false := by simpa using hlock
    have hnamed : ∀ e ∈ r.unlinked.map FutexQ.ident, e.2 = some e.1 := fun e he =>
      hs.futex.named e (hsplit.perm.subset (mem_append_right _ he))
    rw [futexLts_eq hnamed] at h
    cases h
    have hfutex := hs.futex
    rw [hlocked] at hfutex
    -- while the lock is free, every entry is a sleeping lthread
    have hloc : ∀ b ∈ r.unlinked.map FutexQ.owner, loc b = .futex := by
      intro b hb
      have hin := (hfutex.owners b).mp (hsplit.owners.subset (mem_append_right _ hb))
      have hnp : ∀ k, loc b ≠ .pending k .futexUnlock := fun k hl => by
        have := hfutex.locked b k hl
        cases this
      cases hl : loc b with
      | futex => rfl
      | pending k cb =>
        rw [hl] at hin
        cases cb with
        | futexUnlock => exact absurd hl (hnp k)
        | resched | submit | unlock => cases hin
      | nowhere | running | syncWait | queued | host | joiner | exiting | unlocked | done
      | dropped =>
        rw [hl] at hin
        cases hin
    let loc' : Lt → Loc := fun b => if b ∈ r.unlinked.map FutexQ.owner then .queued else loc b
    have hin : ∀ b ∈ r.unlinked.map FutexQ.owner, loc' b = .queued := fun b hb => if_pos hb
    have hout : ∀ b, b ∉ r.unlinked.map FutexQ.owner → loc' b = loc b := fun b hb => if_neg hb
    have hsame : ∀ p : Loc → Bool, p .futex = false → p .queued = false → SameAt p loc loc' := by
      intro p hf hq b
      by_cases hb : b ∈ r.unlinked.map FutexQ.owner
      · exact Or.inr ⟨by rw [hloc b hb, hf], by rw [hin b hb, hq]⟩
      · exact Or.inl (hout b hb)
    have hnodup : (r.unlinked.map FutexQ.owner).Nodup :=
      ((hsplit.owners.nodup_iff).mpr hs.futex.nodup).of_append_right
    exact ⟨loc', { hs with
      sched := hs.sched.frame (fun _ hb => hb) (hsame _ rfl rfl)
      queue := by
        refine hs.queue.enqueue (fun _ hb => hb) hnodup ?_ (fun b hb => Or.inl (hin b hb))
          (fun b hb => by rw [hout b hb])
        intro b hb hmem
        rcases hs.queue.entry b hmem with hq | hcan
        · rw [hloc b hb] at hq
          cases hq
        · exact hsafe b hb hcan hmem
      futex := hlocked.symm ▸ hfutex.splits hsplit hin hout
      host := hs.host.frame (SameFields.refl _ _) (hsame _ rfl rfl)
      join := hs.join.frame (SameFields.refl _ _) (hsame _ rfl rfl)
      fits := by
        intro b
        by_cases hb : b ∈ r.unlinked.map FutexQ.owner
        · rw [hin b hb]
          exact (hs.fits b).move (by rw [hloc b hb]; rfl) rfl (by rw [hloc b hb]; rfl)
            (by rw [hloc b hb]; rfl) (by simp)
        · rw [hout b hb]
          exact hs.fits b }⟩

/-! ## Joins -/

def setJoin (s : LthreadSys) (t : Lt) (f : Lthread → Lthread) (a : Lt) (c : Cont) : LthreadSys :=
  (s.modify t f).modify a (fun x => { x with cont := c })

theorem setJoin_field {α : Type} (π : Lthread → α) (hπ : ∀ x, π { x with cont := c } = π x)
    (b : Lt) : π ((setJoin s t f a c).lts b) = if b = t then π (f (s.lts t)) else π (s.lts b) := by
  simp only [setJoin, LthreadSys.modify, update_apply]
  split_ifs <;> simp_all

theorem setJoin_cont (hf : ∀ x, (f x).cont = x.cont) (b : Lt) :
    ((setJoin s t f a c).lts b).cont = if b = a then c else (s.lts b).cont := by
  simp only [setJoin, LthreadSys.modify, update_apply]
  split_ifs <;> simp_all

theorem setJoin_same {α : Type} (π : Lthread → α) (hπ : ∀ x, π { x with cont := c } = π x)
    (hf : ∀ x, π (f x) = π x) : SameFields π s.lts (setJoin s t f a c).lts := by
  intro b
  rw [setJoin_field π hπ]
  split_ifs with hb
  · rw [hf, hb]
  · rfl

section

variable (hs : s.Owned loc) (hloc : loc a = .running k) (hlive : (s.lts t).live = true)
  (hcan : (s.lts t).cancelled = false)
  (hf : ∀ x, ((f x).live, (f x).exited, (f x).seen, (f x).cancelled) = (x.live, x.exited, x.seen, x.cancelled))

include hs hloc hlive hcan hf

theorem fits_setJoin : ∀ b, ((setJoin s t f a c).lts b).Fits (loc b) := by
  simp only [Prod.mk.injEq] at hf
  obtain ⟨h1, h2, h3, h4⟩ := hf (s.lts t)
  have hft := hs.fits t
  have hfits : ∀ b, ((s.modify t f).lts b).Fits (loc b) :=
    Lthread.fits_lts hs.fits
      { dead := fun h => absurd h ((hs.live_iff t).mp hlive)
        live := by rw [h1, hft.live]
        exited := by rw [h2, hft.exited]
        seen := by rw [h3, hft.seen]
        dropped := fun h => by rw [h4]; exact hft.dropped h
        cancelled := fun h => by rw [h4, hcan] at h; cases h }
  exact Lthread.fits_lts hfits ((hfits a).set (by rw [hloc]; rfl) rfl)

theorem setJoin_owned (hslot : ∀ x, (f x).slot = x.slot)
    (hjoin : JoinPlaced (setJoin s t f a c).lts loc) : (setJoin s t f a c).Owned loc :=
  hs.setLts
    (setJoin_same _ (fun _ => rfl) (fun x => congrArg (fun p => p.2.2.2) (hf x)))
    (setJoin_same _ (fun _ => rfl) hslot) hjoin (hs.fits_setJoin hloc hlive hcan hf)

end

theorem joinCall (hs : s.Owned loc) (hloc : loc a = .running k) (hcont : (s.lts a).cont = .user)
    (hcan : (s.lts t).cancelled = false) (h : s.join a t = some s') : s'.Owned loc := by
  unfold LthreadSys.join at h
  split at h
  · cases h
  · rename_i hlive
    split at h
    · cases h
      exact hs
    · rename_i hdet
      cases h
      have hex : (s.lts a).exited = false := by rw [(hs.fits a).exited, hloc]; rfl
      exact hs.setJoin_owned hloc (by simpa using hlive) hcan (fun _ => rfl) (fun _ => rfl)
        (hs.join.call hcont hex (by simpa using hdet)
          (setJoin_same _ (fun _ => rfl) (fun _ => rfl)) (setJoin_cont (fun _ => rfl))
          (setJoin_field _ (fun _ => rfl)))

theorem cancelled_of_locking (hs : s.Owned loc) (ha : (s.lts a).cont = .locking t) :
    (s.lts t).cancelled = false := by
  by_contra hcan
  have hmem := (hs.join.calls t a).mpr ha
  rw [((hs.fits t).cancelled (by simpa using hcan)).2.2.2] at hmem
  cases hmem

def registered (a : Lt) (c : Lthread) : Lthread :=
  { c with
    joinCalls := c.joinCalls.filter (· ≠ a), ltJoin := some a, busy := true
    joinedBy := some a }

section

variable (hs : s.Owned loc)

include hs

theorem register (hloc : loc a = .running k) (hcont : (s.lts a).cont = .locking t)
    (hlive : (s.lts t).live = true) (hex : (s.lts t).exited = false)
    (hjoin : (s.lts t).ltJoin = none) :
    ((setJoin s t (registered a) a (.joining t)).setSched k (.switched a (.unlock t))).Owned
      (update loc a (.pending k (.unlock t))) := by
  have hc : SameFields Lthread.cancelled s.lts (setJoin s t (registered a) a (.joining t)).lts :=
    setJoin_same _ (fun _ => rfl) (fun _ => rfl)
  have hfits : ∀ b, ((setJoin s t (registered a) a (.joining t)).lts b).Fits (loc b) :=
    hs.fits_setJoin hloc hlive (hs.cancelled_of_locking hcont) (fun _ => rfl)
  have hloct : (loc t).exited = false := by rw [← (hs.fits t).exited, hex]
  exact {
    sched := hs.sched.step (by rw [hloc]; rfl) (Or.inl ⟨rfl, rfl⟩) hc.cancelled
    queue := hs.queue.frame hc.cancelled (SameAt.move hloc rfl rfl)
    futex := hs.futex.frame (SameAt.move hloc rfl rfl)
    host := hs.host.frame (setJoin_same _ (fun _ => rfl) (fun _ => rfl))
      (SameAt.move hloc rfl rfl)
    join := hs.join.lockRegister hcont hex hloct hjoin (by rw [hloc]; rfl)
      (setJoin_same _ (fun _ => rfl) (fun _ => rfl)) (setJoin_field _ (fun _ => rfl))
      (setJoin_field _ (fun _ => rfl)) (setJoin_cont (fun _ => rfl))
      (setJoin_field _ (fun _ => rfl)) (setJoin_field _ (fun _ => rfl))
    fits := Lthread.fits_move hfits hloc rfl rfl rfl rfl (by simp)
    cancels := fun b hb => hc.cancelled b (hs.cancels b hb)
    freedOnce := hs.freedOnce }

theorem joinLock (hloc : loc a = .running k) (hcont : (s.lts a).cont = .locking t)
    (hsafe : (s.lts t).exited = true → (s.lts t).joinedBy = none) (h : s.joinLock k a t = some s') :
    ∃ loc', s'.Owned loc' := by
  have hcan := hs.cancelled_of_locking hcont
  have hlocj : (loc a).inJoin = false := by rw [hloc]; rfl
  unfold LthreadSys.joinLock at h
  split at h
  · cases h
  · rename_i hopen
    simp only [Bool.not_eq_true', not_or, Bool.not_eq_false, Bool.not_eq_true] at hopen
    have hlive := hopen.1
    dsimp only at h
    rw [modify_lts_self] at h
    dsimp only at h
    split at h
    · rename_i hex
      rw [modify_modify] at h
      cases h
      exact ⟨loc, hs.setJoin_owned hloc hlive hcan (fun _ => rfl) (fun _ => rfl)
        (hs.join.lockExited hcont hex (hsafe hex) hlocj
          (setJoin_same _ (fun _ => rfl) (fun _ => rfl)) (setJoin_cont (fun _ => rfl))
          (setJoin_field _ (fun _ => rfl)) (setJoin_field _ (fun _ => rfl)))⟩
    · rename_i hex
      split at h
      · cases h
        exact ⟨loc, hs.setJoin_owned hloc hlive hcan (fun _ => rfl) (fun _ => rfl)
          (hs.join.lockEinval hcont hlocj
            (setJoin_same _ (fun _ => rfl) (fun _ => rfl)) (setJoin_cont (fun _ => rfl))
            (setJoin_field _ (fun _ => rfl)))⟩
      · rename_i hjoin
        rw [modify_modify] at h
        cases h
        exact ⟨_, hs.register hloc hcont hlive (by simpa using hex) hjoin⟩

theorem free_exited {scheds : Nat → SchedState} (hex : (s.lts t).exited = true)
    (hcan : (s.lts t).cancelled = false) (hjoin : (s.lts t).ltJoin = none)
    (hcalls : (s.lts t).joinCalls = []) (hjoined : ∀ a, (s.lts a).cont ≠ .joining t)
    (hsched : SchedPlaced scheds s.lts (update loc t .nowhere)) :
    { s.free t with scheds := scheds }.Owned (update loc t .nowhere) := by
  have hext : (loc t).exited = true := by rw [← (hs.fits t).exited, hex]
  have hno : (loc t).inQueue = false ∧ (loc t).inFutex = false ∧ (loc t).inHost = false := by
    cases hl : loc t <;> rw [hl] at hext <;> first | exact ⟨rfl, rfl, rfl⟩ | cases hext
  have hlive : (s.lts t).live = true := (hs.live_iff t).mpr (fun hl => by rw [hl] at hext; cases hext)
  have hc : SameFields Lthread.cancelled s.lts (update s.lts t .freed) :=
    SameFields.update (by rw [hcan]; rfl)
  rw [free_eq hlive]
  exact {
    sched := hsched.frame hc.cancelled (SameAt.refl _ _)
    queue := hs.queue.frame hc.cancelled (SameAt.update hno.1 rfl)
    futex := hs.futex.frame (SameAt.update hno.2.1 rfl)
    host := hs.host.free hlive hno.2.2 rfl rfl
    join := hs.join.free hex hjoin hcalls hjoined
    fits := Lthread.fits_update hs.fits (by
      constructor <;> simp [Lthread.freed, Loc.live, Loc.exited, Loc.seen])
    cancels := fun b hb => hc.cancelled b (hs.cancels b hb)
    freedOnce := hs.freedOnce }

theorem joinFinish (hloc : loc a = .running k) (hcont : (s.lts a).cont = .joining t)
    (hseen : (s.lts t).seen = false) (hcalls : (s.lts t).joinCalls = []) :
    ((s.modify a (fun c => { c with cont := .user })).free t).Owned
      (update loc t .nowhere) := by
  have hlocj : (loc a).inJoin = false := by rw [hloc]; rfl
  obtain ⟨hby, hjoin⟩ := hs.join.joined a t hcont
  have hex : (s.lts t).exited = true := hjoin.resolve_left (hs.join.ltJoin_ne hlocj t)
  have ht : loc t = .done :=
    Loc.eq_done ((hs.fits t).exited ▸ hex) ((hs.fits t).seen ▸ hseen)
  have hcan : (s.lts t).cancelled = false := by
    by_contra hcan
    rw [((hs.fits t).cancelled (by simpa using hcan)).2.2.1] at hby
    cases hby
  have hta : t ≠ a := by
    rintro rfl
    rw [ht] at hloc
    cases hloc
  have hs' : (s.modify a (fun c => { c with cont := .user })).Owned loc :=
    hs.setLts (SameFields.update rfl) (SameFields.update rfl)
      (hs.join.leave rfl rfl hlocj (fun u hu => by rw [hcont] at hu; cases hu))
      (Lthread.fits_lts hs.fits ((hs.fits a).set (by rw [hloc]; rfl) rfl))
  have hlts : (s.modify a (fun c => { c with cont := .user })).lts t = s.lts t :=
    update_of_ne hta _ _
  have hltJoin : (s.lts t).ltJoin = none := by
    rw [Option.eq_none_iff_forall_ne_some]
    intro b hb
    exact (hs.join.registered t b hb).2.1 ht
  -- only one caller of `lthread_join(t)` is past the lock
  have hjoined : ∀ b, ((s.modify a (fun c => { c with cont := .user })).lts b).cont ≠ .joining t := by
    intro b hb
    rcases eq_or_ne b a with rfl | hba
    · rw [modify_lts_self] at hb
      cases hb
    · rw [show (s.modify a (fun c => { c with cont := .user })).lts b = s.lts b from
        update_of_ne hba _ _] at hb
      exact hba (Option.some.inj ((hs.join.joined b t hb).1.symm.trans hby))
  have hfree := hs'.free_exited (by rw [hlts, hex]) (by rw [hlts, hcan]) (by rw [hlts, hltJoin])
    (by rw [hlts, hcalls]) hjoined
    (hs'.sched.frame (fun _ hb => hb) (SameAt.update (by rw [ht]; rfl) rfl))
  have hlive : ((s.modify a (fun c => { c with cont := .user })).lts t).live = true :=
    (hs'.live_iff t).mpr (by simp [ht])
  rw [free_eq hlive] at hfree ⊢
  exact hfree

/-! ## Exit -/

theorem finish (hk : s.scheds k = .exiting t)
    (hsafe : ∀ b, (s.lts t).ltJoin = some b → (s.lts b).cancelled = true → b ∉ s.schedQueue)
    (h : s.finish k t = some s') : ∃ loc', s'.Owned loc' := by
  have hloc : loc t = .exiting k := hs.loc_of_sched hk rfl (by simp)
  have hft := hs.fits t
  -- the joiner is switched out: its callback needs the lock that `t` holds
  have hjoiner : ∀ b, (s.lts t).ltJoin = some b → loc b = .joiner t := by
    intro b hb
    refine ((hs.join.joiner t b).mp hb).resolve_right ?_
    rintro ⟨j, hj⟩
    exact (hs.join.busyJoin b j t hj).2 k hloc
  unfold LthreadSys.finish at h
  split at h
  · cases h
  · rw [LthreadSys.wakeJoiner, modify_modify] at h
    cases h
    let loc' : Lt → Loc := fun b =>
      if (s.lts t).ltJoin = some b then .queued else update loc t (.unlocked k) b
    have hin : ∀ b, (s.lts t).ltJoin = some b → loc' b = .queued := fun b hb => if_pos hb
    have hout : ∀ b, (s.lts t).ltJoin ≠ some b → loc' b = update loc t (.unlocked k) b :=
      fun b hb => if_neg hb
    have htj : (s.lts t).ltJoin ≠ some t := by
      intro hb
      rw [hjoiner t hb] at hloc
      cases hloc
    have hne : ∀ b, (s.lts t).ltJoin = some b → b ≠ t := by
      rintro b hb rfl
      exact htj hb
    have hsame : ∀ p : Loc → Bool, p (.joiner t) = false → p .queued = false →
        SameAt p (update loc t (.unlocked k)) loc' := by
      intro p hj hq b
      by_cases hb : (s.lts t).ltJoin = some b
      · rw [hin b hb, update_of_ne (hne b hb), hjoiner b hb]
        exact Or.inr ⟨hj, hq⟩
      · exact Or.inl (hout b hb)
    have hc : SameFields Lthread.cancelled s.lts
        (s.modify t (fun c => { c with ltJoin := none, busy := false })).lts :=
      SameFields.update rfl
    have hmem : ∀ b, b ∈ (s.lts t).ltJoin.toList ↔ (s.lts t).ltJoin = some b := by
      intro b
      rw [Option.mem_toList]
    exact ⟨loc', {
      sched := (hs.sched.step (by rw [hloc]; rfl) (Or.inl ⟨rfl, rfl⟩) hc.cancelled).frame
        (fun _ hb => hb) (hsame _ rfl rfl)
      queue := by
        refine hs.queue.enqueue hc.cancelled ?_ ?_ ?_ ?_
        · cases (s.lts t).ltJoin <;> simp
        · intro b hb hmemq
          rw [hmem] at hb
          rcases hs.queue.entry b hmemq with hq | hcan
          · rw [hjoiner b hb] at hq
            cases hq
          · exact hsafe b hb hcan hmemq
        · intro b hb
          exact Or.inl (hin b ((hmem b).mp hb))
        · intro b hb
          rw [hmem] at hb
          rw [hout b hb, update_apply]
          split_ifs with hbt
          · rw [hbt, hloc]
            simp
          · rfl
      futex := (hs.futex.frame (SameAt.move hloc rfl rfl)).frame (hsame _ rfl rfl)
      host := (hs.host.frame (SameFields.refl _ _) (SameAt.move hloc rfl rfl)).frame
        (SameFields.update rfl) (hsame _ rfl rfl)
      join := hs.join.finish rfl hloc (by rw [hft.exited, hloc]; rfl) hin
        (fun b hbt hb => by rw [hout b hb, update_of_ne hbt])
        (by rw [hout t htj, update_self])
      fits := by
        have hfits := Lthread.fits_update (a := t) (L := .unlocked k)
          (c := { s.lts t with ltJoin := none, busy := false }) hs.fits
          { dead := fun h => by cases h
            live := by rw [hloc] at hft; exact hft.live
            exited := by rw [hloc] at hft; exact hft.exited
            seen := by rw [hloc] at hft; exact hft.seen
            dropped := fun h => by cases h
            cancelled := hft.cancelled }
        intro b
        by_cases hb : (s.lts t).ltJoin = some b
        · rw [hin b hb]
          refine (hfits b).move ?_ rfl ?_ ?_ (by simp) <;>
            rw [update_of_ne (hne b hb), hjoiner b hb] <;> rfl
        · rw [hout b hb]
          exact hfits b
      cancels := fun b hb => hc.cancelled b (hs.cancels b hb)
      freedOnce := hs.freedOnce }⟩

theorem reclaim (hk : s.scheds k = .unlocked t) (h : s.reclaim k t = some s') :
    ∃ loc', s'.Owned loc' := by
  have hloc : loc t = .unlocked k := hs.loc_of_sched hk rfl (by simp)
  have hft := hs.fits t
  rw [hloc] at hft
  unfold LthreadSys.reclaim at h
  split at h
  · cases h
  · rename_i hlive
    have hlive' : (s.lts t).live = true := by simpa using hlive
    dsimp only at h
    rw [modify_lts_self] at h
    cases h
    split
    · rename_i hdet
      have hdet' : (s.lts t).detach = true := hdet
      obtain ⟨hby, hcalls⟩ := hs.join.detached t hdet'
      have hcan : (s.lts t).cancelled = false := by
        by_contra hcan
        rw [(hft.cancelled (by simpa using hcan)).2.1] at hdet'
        cases hdet'
      have hltJoin : (s.lts t).ltJoin = none := by
        rw [Option.eq_none_iff_forall_ne_some]
        intro b hb
        exact (hs.join.registered t b hb).2.2 k hloc
      have hfree : (s.modify t (fun c => { c with seen := false })).free t = s.free t := by
        rw [free_eq hlive', free_eq (by rw [modify_lts_self]; exact hlive'), modify_lts_self]
        simp [LthreadSys.modify]
      have hjoined : ∀ b, (s.lts b).cont ≠ .joining t := by
        intro b hb
        have hsome := (hs.join.joined b t hb).1
        rw [hby] at hsome
        cases hsome
      have hsched : SchedPlaced (update s.scheds k .idle) s.lts
          (update loc t .nowhere) :=
        hs.sched.step (by rw [hloc]; rfl) (Or.inr ⟨rfl, rfl⟩) (fun _ hb => hb)
      have hs' := hs.free_exited hft.exited hcan hltJoin hcalls hjoined hsched
      rw [hfree]
      rw [free_eq hlive'] at hs' ⊢
      exact ⟨_, hs'⟩
    · have hc : SameFields Lthread.cancelled s.lts
        (s.modify t (fun c => { c with seen := false })).lts := SameFields.update rfl
      exact ⟨update loc t .done, {
        sched := hs.sched.step (by rw [hloc]; rfl) (Or.inr ⟨rfl, rfl⟩) hc.cancelled
        queue := hs.queue.frame hc.cancelled (SameAt.move hloc rfl rfl)
        futex := hs.futex.frame (SameAt.move hloc rfl rfl)
        host := hs.host.frame (SameFields.update rfl) (SameAt.move hloc rfl rfl)
        join := (hs.join.done hloc hft.exited).frame (SameFields.update rfl) (SameAt.refl _ _)
        fits := Lthread.fits_update hs.fits
          { dead := fun h => by cases h
            live := hft.live
            exited := hft.exited
            seen := rfl
            dropped := fun h => by cases h
            cancelled := hft.cancelled }
        cancels := fun b hb => hc.cancelled b (hs.cancels b hb)
        freedOnce := hs.freedOnce }⟩

/-! ## Detaching and cancelling -/

theorem detach2 (hlive : (s.lts t).live = true) (hcan : (s.lts t).cancelled = false)
    (hjoin : (s.lts t).joinedBy = none) (hcalls : (s.lts t).joinCalls = []) :
    (s.modify t (fun c => { c with detach := true })).Owned loc := by
  have hft := hs.fits t
  exact hs.setLts (SameFields.update rfl) (SameFields.update rfl)
    (hs.join.detach rfl hjoin hcalls)
    (Lthread.fits_lts hs.fits
      { dead := fun h => absurd h ((hs.live_iff t).mp hlive)
        live := hft.live
        exited := hft.exited
        seen := hft.seen
        dropped := hft.dropped
        cancelled := fun h => by rw [hcan] at h; cases h })

theorem cancel (hlive : (s.lts t).live = true) (hnew : (s.lts t).new = false)
    (hdet : (s.lts t).detach = false) (hjoin : (s.lts t).joinedBy = none)
    (hcalls : (s.lts t).joinCalls = []) : { s.modify t (fun c => { c with cancelled := true }) with
      cancels := t :: s.cancels }.Owned loc := by
  have hft := hs.fits t
  have hc : ∀ b, (s.lts b).cancelled = true →
      ((s.modify t (fun c => { c with cancelled := true })).lts b).cancelled = true := by
    intro b hb
    simp only [LthreadSys.modify, update_apply]
    split
    · rfl
    · exact hb
  exact {
    sched := hs.sched.frame hc (SameAt.refl _ _)
    queue := hs.queue.frame hc (SameAt.refl _ _)
    futex := hs.futex
    host := hs.host.frame (SameFields.update rfl) (SameAt.refl _ _)
    join := hs.join.frame (SameFields.update rfl) (SameAt.refl _ _)
    fits := Lthread.fits_lts hs.fits
      { dead := fun h => absurd h ((hs.live_iff t).mp hlive)
        live := hft.live
        exited := hft.exited
        seen := hft.seen
        dropped := fun _ => rfl
        cancelled := fun _ => ⟨hnew, hdet, hjoin, hcalls⟩ }
    cancels := by
      intro b hb
      rcases mem_cons.mp hb with rfl | hb
      · show ((s.modify b (fun c => { c with cancelled := true })).lts b).cancelled = true
        rw [modify_lts_self]
      · exact hc b (hs.cancels b hb)
    freedOnce := hs.freedOnce }

theorem cancelEnqueue (ht : t ∈ s.cancels) (hnew : t ∉ s.schedQueue) :
    ({ s with cancels := s.cancels.erase t }.enqueue [t]).Owned loc :=
  { hs with
    queue := by
      refine hs.queue.enqueue (fun _ hb => hb) (nodup_singleton t) ?_ ?_ (fun _ _ => Iff.rfl)
      · intro b hb
        rwa [mem_singleton.mp hb]
      · intro b hb
        rw [mem_singleton.mp hb]
        exact Or.inr (hs.cancels t ht)
    cancels := fun b hb => hs.cancels b (mem_of_mem_erase hb) }

end

end LthreadSys.Owned

/-! ## Conditions on the steps -/

/-- `lthread_join` and `lthread_detach2` as the code needs them: an exited lthread is joined
by one other only, it is freed when no scheduler sees it any more and nobody waits for its
lock, and it is not detached while another one joins it. -/
def joinSafe (s : LthreadSys) : LtStep → Bool
  | .joinLock k =>
    match s.runsOn k with
    | some (_, .locking t) => !(s.lts t).exited || (s.lts t).joinedBy.isNone
    | _ => true
  | .joinFinish k =>
    match s.runsOn k with
    | some (_, .joining t) => !(s.lts t).seen && (s.lts t).joinCalls.isEmpty
    | _ => true
  | .detach2 t => (s.lts t).joinedBy.isNone && (s.lts t).joinCalls.isEmpty
  | _ => true

def handsOver (s : LthreadSys) : LtStep → List Lt
  | .callback k =>
    match s.scheds k with
    | .switched t .resched => [t]
    | _ => []
  | .finish k =>
    match s.scheds k with
    | .exiting t => (s.lts t).ltJoin.toList
    | _ => []
  | .futexWake uaddr num bitset =>
    (futexWake s.futexQueues uaddr num bitset).unlinked.map FutexQ.owner
  | .futexRequeue uaddr uaddr2 num limit =>
    (futexRequeue s.futexQueues uaddr uaddr2 num limit).unlinked.map FutexQ.owner
  | .futexTick real mntc => (futexTick s.futexQueues real mntc).unlinked.map FutexQ.owner
  | .cancelEnqueue t => [t]
  | _ => []

/-- `lthread_cancel` as the code needs it: the target has been started, is not detached and
nobody joins it, it is neither detached nor joined later, and whoever wakes it does so when
the scheduler has taken the entry of the cancellation. -/
def cancelSafe (s : LthreadSys) (l : LtStep) : Bool :=
  (handsOver s l).all (fun a => !(s.lts a).cancelled || a ∉ s.schedQueue) &&
  match l with
  | .join _ t | .detach2 t => !(s.lts t).cancelled
  | .cancel t =>
    (s.lts t).cancelState ||
      (!(s.lts t).new && !(s.lts t).detach && (s.lts t).joinedBy.isNone &&
        (s.lts t).joinCalls.isEmpty)
  | _ => true

theorem handsOver_safe {s : LthreadSys} {l : LtStep} (h : cancelSafe s l = true) :
    ∀ a ∈ handsOver s l, (s.lts a).cancelled = true → a ∉ s.schedQueue := by
  intro a ha hcan
  unfold cancelSafe at h
  simp only [Bool.and_eq_true, all_eq_true] at h
  simpa [hcan] using h.1 a ha

/-- **One step.** -/
theorem LthreadSys.Owned.step {s s' : LthreadSys} {l : LtStep} {loc : Lt → Loc}
    (hs : s.Owned loc) (hj : joinSafe s l = true) (hc : cancelSafe s l = true)
    (h : ltStep s l = some s') : ∃ loc', s'.Owned loc' := by
  have hsafe := handsOver_safe hc
  cases ltStep_takes h with
  | create hlive hslot => exact ⟨_, hs.create hlive hslot⟩
  | resume hk hq => exact ⟨_, hs.resume hk hq⟩
  | resumeRet hk hq ht => exact ⟨_, hs.resumeRet hk hq ht⟩
  | check hk h => exact hs.check hk h
  | start hk h => exact ⟨_, hs.start hk h⟩
  | @callback k t cb s' hk h =>
    refine hs.callback hk ?_ h
    rintro rfl
    exact hsafe t (by simp [handsOver, hk])
  | yield ha => exact ⟨_, hs.switch (hs.loc_of_running (userOn_eq ha).1) (Or.inl rfl)⟩
  | hostCall ha => exact hs.hostCall (hs.loc_of_running (userOn_eq ha).1)
  | syncDone hk hst => exact ⟨_, hs.syncDone hk hst⟩
  | hostTake hq => exact ⟨_, hs.hostTake hq⟩
  | hostDoneSync hmem hst => exact ⟨_, hs.hostDoneSync hmem hst⟩
  | hostDone hmem hst => exact ⟨_, hs.hostDone hmem hst⟩
  | futexWait ha h => exact ⟨_, hs.futexWait (hs.loc_of_running (userOn_eq ha).1) rfl h⟩
  | @futexWake uaddr num bitset s' h =>
    exact hs.futexWalk (futexWake_splits s.futexQueues uaddr num bitset) hsafe h
  | @futexRequeue uaddr uaddr2 num limit s' h =>
    exact hs.futexWalk (futexRequeue_splits s.futexQueues uaddr uaddr2 num limit) hsafe h
  | @futexTick real mntc s' h =>
    exact hs.futexWalk (futexTick_splits s.futexQueues real mntc) hsafe h
  | @join k t a s' ha h =>
    obtain ⟨hk, hcont⟩ := userOn_eq ha
    have hcan : (s.lts t).cancelled = false := by
      simpa [cancelSafe, handsOver] using hc
    exact ⟨_, hs.joinCall (hs.loc_of_running hk) hcont hcan h⟩
  | joinLock hr h =>
    obtain ⟨hk, hcont⟩ := runsOn_eq hr
    refine hs.joinLock (hs.loc_of_running hk) hcont ?_ h
    intro hex
    simpa [joinSafe, hr, hex] using hj
  | @joinFinish k a t hr =>
    obtain ⟨hk, hcont⟩ := runsOn_eq hr
    have hopen : (s.lts t).seen = false ∧ (s.lts t).joinCalls = [] := by
      simpa [joinSafe, hr] using hj
    exact ⟨_, hs.joinFinish (hs.loc_of_running hk) hcont hopen.1 hopen.2⟩
  | exit ha hbusy =>
    obtain ⟨hk, hcont⟩ := userOn_eq ha
    exact ⟨_, hs.exit (hs.loc_of_running hk) hcont hbusy⟩
  | @finish k t s' hk h =>
    refine hs.finish hk ?_ h
    intro b hb
    exact hsafe b (by simp [handsOver, hk, hb])
  | reclaim hk h => exact hs.reclaim hk h
  | @detach2 t hlive hbusy =>
    have hopen : (s.lts t).joinedBy = none ∧ (s.lts t).joinCalls = [] := by
      simpa [joinSafe] using hj
    have hcan : (s.lts t).cancelled = false := by
      simpa [cancelSafe, handsOver] using hc
    exact ⟨_, hs.detach2 hlive hcan hopen.1 hopen.2⟩
  | cancelDisabled hstate => exact ⟨_, hs⟩
  | @cancel t hlive hstate =>
    have hopen : (((s.lts t).new = false ∧ (s.lts t).detach = false) ∧
        (s.lts t).joinedBy = none) ∧ (s.lts t).joinCalls = [] := by
      simpa [cancelSafe, handsOver, hstate] using hc
    exact ⟨_, hs.cancel hlive hopen.1.1.1 hopen.1.1.2 hopen.1.2 hopen.2⟩
  | @cancelEnqueue t ht =>
    exact ⟨_, hs.cancelEnqueue ht (hsafe t (by simp [handsOver]) (hs.cancels t ht))⟩
  | setCancelState ha | setPinned ha =>
    have hloc := hs.loc_of_running (userOn_eq ha).1
    exact ⟨_, hs.modify rfl rfl rfl ((hs.fits _).set (by rw [hloc]; rfl) rfl)⟩

end RktIo.Sched
