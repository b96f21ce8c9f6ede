import RktIo.Queue.MpmcShared

/-!
# The MPMC queue is a bounded FIFO queue
-/

namespace RktIo.Queue

open Transition Function List MpmcSys

variable {α : Type} {k : Nat} {s s' : MpmcSys α}

/-! ## What a thread knows -/

def MpmcPc.enqHolds : MpmcPc α → Option Nat
  | .enqStore _ _ n | .enqPublish _ n => some n
  | _ => none

def MpmcPc.deqHolds : MpmcPc α → Option Nat
  | .deqRead _ n | .deqRelease _ _ n => some n
  | _ => none

/-- What a thread knows in the middle of a call. A position that it has loaded may be old, but
it was not when it last found the cell at it. -/
def ThreadOk (k : Nat) (s : MpmcSys α) (th : MpmcThread α) : Prop :=
  match th.pc with
  | .enqSeq _ pos n =>
    pos = BitVec.ofNat 64 n ∧ n ≤ s.enqLog.length ∧ th.seenOps ≤ 2 * n + 2 * 2 ^ k + 2 ^ 62
  | .enqCas _ pos n =>
    pos = BitVec.ofNat 64 n ∧ n ≤ s.enqLog.length ∧ th.seenOps ≤ 2 * n + 2 * 2 ^ k ∧
      (n < 2 ^ k ∨ s.released (n - 2 ^ k) = true)
  | .enqStore x pos n =>
    pos = BitVec.ofNat 64 n ∧ s.enqLog[n]? = some x ∧ s.published n = false
  | .enqPublish pos n =>
    pos = BitVec.ofNat 64 n ∧ s.enqLog[n]? = some (s.q.buffer (n % 2 ^ k)).data ∧
      s.published n = false
  | .enqFull _ vacant => vacant = false
  | .deqSeq pos n =>
    pos = BitVec.ofNat 64 n ∧ n ≤ s.deqLog.length ∧ th.seenOps ≤ 2 * n + 2 * 2 ^ k + 2 ^ 62
  | .deqCas pos n =>
    pos = BitVec.ofNat 64 n ∧ n ≤ s.deqLog.length ∧ th.seenOps ≤ 2 * n + 2 * 2 ^ k ∧
      s.published n = true
  | .deqRead pos n =>
    pos = BitVec.ofNat 64 n ∧ n < s.deqLog.length ∧ s.released n = false
  | .deqRelease x pos n =>
    pos = BitVec.ofNat 64 n ∧ s.deqLog[n]? = some (some x) ∧ s.released n = false ∧
      (s.q.buffer (n % 2 ^ k)).unread = false
  | .deqEmpty _ published => published = false
  | .idle | .enqLoad _ | .enqDone _ | .deqLoad | .deqDone .. => True

structure Inv (k : Nat) (s : MpmcSys α) : Prop where
  shared : Shared k s
  threads : ∀ t, ThreadOk k s (s.threads t)
  enqOnce : ∀ t t' n, (s.threads t).pc.enqHolds = some n → (s.threads t').pc.enqHolds = some n →
    t = t'
  deqOnce : ∀ t t' n, (s.threads t).pc.deqHolds = some n → (s.threads t').pc.deqHolds = some n →
    t = t'

theorem Inv.goto {t : Nat} {pc : MpmcPc α} (hs : Inv k s) (hth : s'.threads = s.threads)
    (hshared : Shared k s') (hothers : ∀ t' ≠ t, ThreadOk k s' (s.threads t'))
    (hpc : ThreadOk k s' ⟨pc, s'.ops⟩)
    (henq : ∀ n, pc.enqHolds = some n → (s.threads t).pc.enqHolds = some n ∨
      ∀ t', (s.threads t').pc.enqHolds ≠ some n)
    (hdeq : ∀ n, pc.deqHolds = some n → (s.threads t).pc.deqHolds = some n ∨
      ∀ t', (s.threads t').pc.deqHolds ≠ some n) : Inv k (s'.goto t pc) where
  shared := ⟨hshared.pos, hshared.small, hshared.mask, hshared.enqPos, hshared.deqPos, hshared.lap,
    hshared.claimed, hshared.published_lt, hshared.released_lt, hshared.seq, hshared.data,
    hshared.unread, hshared.log, hshared.returns, hshared.nodup, hshared.kept⟩
  threads := by
    intro t'
    show ThreadOk k s' (update s'.threads t ⟨pc, s'.ops⟩ t')
    rw [update_apply, hth]
    split
    · exact hpc
    · rename_i hne
      exact hothers t' hne
  enqOnce := by
    have hold := hs.enqOnce
    simp only [MpmcSys.goto, hth, update_apply]
    grind
  deqOnce := by
    have hold := hs.deqOnce
    simp only [MpmcSys.goto, hth, update_apply]
    grind

/-! ## The other threads -/

structure Grows (s s' : MpmcSys α) : Prop where
  enq : s.enqLog.length ≤ s'.enqLog.length
  deq : s.deqLog.length ≤ s'.deqLog.length
  enqLog : ∀ (n : Nat) x, s.enqLog[n]? = some x → s'.enqLog[n]? = some x
  published : ∀ n, s.published n = true → s'.published n = true
  released : ∀ n, s.released n = true → s'.released n = true

theorem ThreadOk.frame {th : MpmcThread α} (h : ThreadOk k s th) (hg : Grows s s')
    (henq : ∀ n, th.pc.enqHolds = some n → s'.published n = s.published n ∧
      (s'.q.buffer (n % 2 ^ k)).data = (s.q.buffer (n % 2 ^ k)).data)
    (hdeq : ∀ n, th.pc.deqHolds = some n → s'.released n = s.released n ∧
      s'.deqLog[n]? = s.deqLog[n]? ∧
      ((s.q.buffer (n % 2 ^ k)).unread = false → (s'.q.buffer (n % 2 ^ k)).unread = false)) :
    ThreadOk k s' th := by
  obtain ⟨pc, seen⟩ := th
  cases pc with
  | enqSeq x pos n => exact ⟨h.1, h.2.1.trans hg.enq, h.2.2⟩
  | enqCas x pos n => exact ⟨h.1, h.2.1.trans hg.enq, h.2.2.1, h.2.2.2.imp id (hg.released _)⟩
  | enqStore x pos n => exact ⟨h.1, hg.enqLog n x h.2.1, (henq n rfl).1.trans h.2.2⟩
  | enqPublish pos n =>
    refine ⟨h.1, ?_, (henq n rfl).1.trans h.2.2⟩
    rw [(henq n rfl).2]
    exact hg.enqLog n _ h.2.1
  | deqSeq pos n => exact ⟨h.1, h.2.1.trans hg.deq, h.2.2⟩
  | deqCas pos n => exact ⟨h.1, h.2.1.trans hg.deq, h.2.2.1, hg.published n h.2.2.2⟩
  | deqRead pos n => exact ⟨h.1, h.2.1.trans_le hg.deq, (hdeq n rfl).1.trans h.2.2⟩
  | deqRelease x pos n =>
    obtain ⟨hrel, hlog, hread⟩ := hdeq n rfl
    exact ⟨h.1, hlog.trans h.2.1, hrel.trans h.2.2.1, hread h.2.2.2⟩
  | idle | enqLoad | enqFull | enqDone | deqLoad | deqEmpty | deqDone => exact h

variable {n : Nat}

theorem ThreadOk.enqHeld {th : MpmcThread α} (h : ThreadOk k s th) (hn : th.pc.enqHolds = some n) :
    n < s.enqLog.length ∧ s.published n = false := by
  obtain ⟨pc, seen⟩ := th
  cases pc <;> cases hn
  · exact ⟨(List.getElem?_eq_some_iff.mp h.2.1).1, h.2.2⟩
  · exact ⟨(List.getElem?_eq_some_iff.mp h.2.1).1, h.2.2⟩

theorem ThreadOk.deqHeld {th : MpmcThread α} (h : ThreadOk k s th) (hn : th.pc.deqHolds = some n) :
    n < s.deqLog.length ∧ s.released n = false := by
  obtain ⟨pc, seen⟩ := th
  cases pc <;> cases hn
  · exact ⟨h.2.1, h.2.2⟩
  · exact ⟨(List.getElem?_eq_some_iff.mp h.2.1).1, h.2.2.1⟩

variable {pos : BitVec 64} {x : α}

namespace Inv

variable {t : Nat}

section

variable (hs : Inv k s)

include hs

theorem goto_same {pc : MpmcPc α} (hpc : ThreadOk k s ⟨pc, s.ops⟩) (henq : pc.enqHolds = none)
    (hdeq : pc.deqHolds = none) : Inv k (s.goto t pc) := by
  refine hs.goto rfl hs.shared (fun t' _ => hs.threads t') hpc ?_ ?_
  · simp [henq]
  · simp [hdeq]

theorem claimEnq (hpc : (s.threads t).pc = .enqCas x pos n)
    (hops : s.ops < (s.threads t).seenOps + 2 ^ 62) (hcas : s.q.enqueuePos = pos) :
    Inv k ((s.claimEnq x pos).goto t (.enqStore x pos s.enqLog.length)) := by
  have hth := hs.threads t
  rw [ThreadOk, hpc] at hth
  obtain ⟨hpos, hle, hseen, hvac⟩ := hth
  have hshared := hs.shared
  have hlap := hshared.lap_le
  -- the position has not moved: it is too near to have gone round
  have hn : n = s.enqLog.length := by
    refine (SeqNum.ofNat_eq_iff hle ?_).mp (by rw [← hpos, ← hcas, hshared.enqPos])
    have hed := hshared.enq_le_deq
    unfold MpmcSys.ops at hops
    omega
  subst hn hpos
  have hnew : s.published s.enqLog.length = false := by
    by_contra hpub
    have hlt := hshared.published_lt _ (by simpa using hpub)
    omega
  have hg : Grows s (s.claimEnq x (BitVec.ofNat 64 s.enqLog.length)) := by
    refine ⟨by simp [MpmcSys.claimEnq], le_rfl, ?_, fun _ h => h, fun _ h => h⟩
    intro n y hy
    rw [MpmcSys.claimEnq, List.getElem?_append_left (List.getElem?_eq_some_iff.mp hy).1]
    exact hy
  refine hs.goto rfl (hshared.claimEnq x hvac) ?_ ⟨rfl, by simp [MpmcSys.claimEnq], hnew⟩ ?_ ?_
  · intro t' _
    exact (hs.threads t').frame hg (fun _ _ => ⟨rfl, rfl⟩) (fun _ _ => ⟨rfl, rfl, id⟩)
  · rintro n ⟨⟩
    refine Or.inr (fun t' ht' => ?_)
    have hlt := ((hs.threads t').enqHeld ht').1
    omega
  · rintro n ⟨⟩

theorem storeData (hpc : (s.threads t).pc = .enqStore x pos n) :
    Inv k ((s.storeData x pos).goto t (.enqPublish pos n)) := by
  have hth := hs.threads t
  rw [ThreadOk, hpc] at hth
  obtain ⟨rfl, hlog, hpub⟩ := hth
  have hshared := hs.shared
  have hn := (List.getElem?_eq_some_iff.mp hlog).1
  have hg : Grows s (s.storeData x (BitVec.ofNat 64 n)) :=
    ⟨le_rfl, le_rfl, fun _ _ h => h, fun _ h => h, fun _ h => h⟩
  refine hs.goto rfl (hshared.storeData x hn hpub) ?_ ⟨rfl, ?_, hpub⟩ ?_ ?_
  · intro t' hne
    refine (hs.threads t').frame hg (fun m hm => ⟨rfl, ?_⟩) (fun m _ => ⟨rfl, rfl, ?_⟩)
    · -- the cell of the other thread is another one
      obtain ⟨hlt, hm'⟩ := (hs.threads t').enqHeld hm
      simp only [MpmcSys.storeData, hshared.setCell_buffer]
      rw [update_of_ne]
      intro hcell
      obtain rfl := hshared.current_unique (hshared.current_of_unpublished hlt hm')
        (hshared.current_of_unpublished hn hpub) hcell
      exact hne (hs.enqOnce t' t m hm (by rw [hpc]; rfl))
    · intro hread
      simp only [MpmcSys.storeData, hshared.setCell_buffer, hshared.cell_ofNat,
        update_apply]
      split
      · rename_i hcell
        rw [← hcell]
        exact hread
      · exact hread
  · simp only [MpmcSys.storeData, hshared.setCell_buffer, update_self]
    exact hlog
  · rintro m ⟨⟩
    exact Or.inl (by rw [hpc]; rfl)
  · rintro m ⟨⟩

theorem publish (hpc : (s.threads t).pc = .enqPublish pos n) :
    Inv k ((s.publish pos n).goto t (.enqDone n)) := by
  have hth := hs.threads t
  rw [ThreadOk, hpc] at hth
  obtain ⟨rfl, hlog, hpub⟩ := hth
  have hshared := hs.shared
  have hn := (List.getElem?_eq_some_iff.mp hlog).1
  have hg : Grows s (s.publish (BitVec.ofNat 64 n) n) := by
    refine ⟨le_rfl, le_rfl, fun _ _ h => h, ?_, fun _ h => h⟩
    intro m hm
    simp [MpmcSys.publish, update_apply, hm]
  refine hs.goto rfl (hshared.publish hpub hlog) ?_ trivial (by rintro m ⟨⟩) (by rintro m ⟨⟩)
  intro t' hne
  have hcell : ∀ m, s.Current k m → m ≠ n → m % 2 ^ k ≠ n % 2 ^ k := fun m hm hmn h =>
    hmn (hshared.current_unique hm (hshared.current_of_unpublished hn hpub) h)
  refine (hs.threads t').frame hg (fun m hm => ?_) (fun m hm => ⟨rfl, rfl, ?_⟩)
  · obtain ⟨hlt, hm'⟩ := (hs.threads t').enqHeld hm
    have hmn : m ≠ n := by
      rintro rfl
      exact hne (hs.enqOnce t' t m hm (by rw [hpc]; rfl))
    have hother := hcell m (hshared.current_of_unpublished hlt hm') hmn
    simp [MpmcSys.publish, hshared.setCell_buffer, hmn, hother]
  · obtain ⟨hlt, hrel⟩ := (hs.threads t').deqHeld hm
    have hmpub := hshared.claimed m hlt
    have hmn : m ≠ n := by
      rintro rfl
      rw [hpub] at hmpub
      cases hmpub
    have hother := hcell m (hshared.current (hshared.published_lt m hmpub) hrel) hmn
    simp [MpmcSys.publish, hshared.setCell_buffer, hother]

theorem claimDeq (hpc : (s.threads t).pc = .deqCas pos n)
    (hops : s.ops < (s.threads t).seenOps + 2 ^ 62) (hcas : s.q.dequeuePos = pos) :
    Inv k ((s.claimDeq pos).goto t (.deqRead pos s.deqLog.length)) := by
  have hth := hs.threads t
  rw [ThreadOk, hpc] at hth
  obtain ⟨hpos, hle, hseen, hpub⟩ := hth
  have hshared := hs.shared
  have hlap := hshared.lap_le
  have hn : n = s.deqLog.length := by
    refine (SeqNum.ofNat_eq_iff hle ?_).mp (by rw [← hpos, ← hcas, hshared.deqPos])
    have hde := hshared.deq_le_enq
    unfold ops at hops
    omega
  subst hn hpos
  have hnew : s.released s.deqLog.length = false := by
    by_contra hrel
    have hlt := hshared.released_lt _ (by simpa using hrel)
    omega
  have hg : Grows s (s.claimDeq (BitVec.ofNat 64 s.deqLog.length)) :=
    ⟨le_rfl, by simp [claimDeq], fun _ _ h => h, fun _ h => h, fun _ h => h⟩
  refine hs.goto rfl (hshared.claimDeq hpub) ?_ ⟨rfl, by simp [claimDeq], hnew⟩
    (by rintro m ⟨⟩) ?_
  · intro t' _
    refine (hs.threads t').frame hg (fun _ _ => ⟨rfl, rfl⟩) (fun m hm => ⟨rfl, ?_, id⟩)
    exact getElem?_append_left ((hs.threads t').deqHeld hm).1
  · rintro n ⟨⟩
    refine Or.inr (fun t' ht' => ?_)
    have hlt := ((hs.threads t').deqHeld ht').1
    omega

theorem readData (hpc : (s.threads t).pc = .deqRead pos n) :
    Inv k ((s.readData pos n).goto t (.deqRelease (s.q.cell pos).data pos n)) := by
  have hth := hs.threads t
  rw [ThreadOk, hpc] at hth
  obtain ⟨rfl, hn, hrel⟩ := hth
  have hshared := hs.shared
  have hg : Grows s (s.readData (BitVec.ofNat 64 n) n) :=
    ⟨le_rfl, by simp [readData], fun _ _ h => h, fun _ h => h, fun _ h => h⟩
  refine hs.goto rfl (hshared.readData hn hrel) ?_ ⟨rfl, ?_, hrel, ?_⟩ (by rintro m ⟨⟩) ?_
  · intro t' hne
    refine (hs.threads t').frame hg (fun m _ => ⟨rfl, ?_⟩) (fun m hm => ⟨rfl, ?_, ?_⟩)
    · simp only [readData, hshared.setCell_buffer, hshared.cell_ofNat,
        update_apply]
      split
      · rename_i hcell
        rw [hcell]
      · rfl
    · refine getElem?_set_ne ?_
      rintro rfl
      exact hne (hs.deqOnce t' t n hm (by rw [hpc]; rfl))
    · intro hread
      simp only [readData, hshared.setCell_buffer, update_apply]
      split
      · rfl
      · exact hread
  · simp [readData, hn]
  · simp [readData, hshared.setCell_buffer]
  · rintro m ⟨⟩
    exact Or.inl (by rw [hpc]; rfl)

theorem release (hpc : (s.threads t).pc = .deqRelease x pos n) :
    Inv k ((s.release x pos n).goto t (.deqDone n x)) := by
  have hth := hs.threads t
  rw [ThreadOk, hpc] at hth
  obtain ⟨rfl, hlog, hrel, hread⟩ := hth
  have hshared := hs.shared
  have hg : Grows s (s.release x (BitVec.ofNat 64 n) n) := by
    refine ⟨le_rfl, le_rfl, fun _ _ h => h, fun _ h => h, ?_⟩
    intro m hm
    simp [release, update_apply, hm]
  refine hs.goto rfl (hshared.release hrel hlog hread) ?_ trivial (by rintro m ⟨⟩)
    (by rintro m ⟨⟩)
  intro t' hne
  have hbuf : ∀ c, ((s.release x (BitVec.ofNat 64 n) n).q.buffer c).data = (s.q.buffer c).data ∧
      ((s.release x (BitVec.ofNat 64 n) n).q.buffer c).unread = (s.q.buffer c).unread := by
    intro c
    simp only [release, hshared.setCell_buffer, hshared.cell_ofNat, update_apply]
    split
    · rename_i hcell
      rw [hcell]
      exact ⟨rfl, rfl⟩
    · exact ⟨rfl, rfl⟩
  refine (hs.threads t').frame hg (fun m _ => ⟨rfl, (hbuf _).1⟩) (fun m hm => ⟨?_, rfl, ?_⟩)
  · simp only [release, update_apply]
    rw [if_neg]
    rintro rfl
    exact hne (hs.deqOnce t' t m hm (by rw [hpc]; rfl))
  · intro hread'
    exact (hbuf _).2.trans hread'

/-! ## Every step -/

theorem enqSeq (hpc : (s.threads t).pc = .enqSeq x pos n)
    (hops : s.ops < (s.threads t).seenOps + 2 ^ 62) (h : s.run t (.enqSeq x pos n) = some s') :
    Inv k s' := by
  have hth := hs.threads t
  rw [ThreadOk, hpc] at hth
  obtain ⟨rfl, hle, hseen⟩ := hth
  have hnear : s.ops < 2 * n + 2 * 2 ^ k + 2 ^ 63 := by omega
  simp only [run] at h
  split at h
  · rename_i hdif
    obtain ⟨hcur, -⟩ := hs.shared.dif_zero hle hnear le_rfl (Nat.le_succ n) hdif
    cases h
    exact hs.goto_same ⟨rfl, hle, hs.shared.ops_le hcur.1, hcur.2⟩ rfl rfl
  · split at h
    · rename_i hdif
      cases h
      exact hs.goto_same (hs.shared.enq_dif_neg hle hnear hdif) rfl rfl
    · cases h
      exact hs.goto_same trivial rfl rfl

theorem deqSeq (hpc : (s.threads t).pc = .deqSeq pos n)
    (hops : s.ops < (s.threads t).seenOps + 2 ^ 62) (h : s.run t (.deqSeq pos n) = some s') :
    Inv k s' := by
  have hth := hs.threads t
  rw [ThreadOk, hpc] at hth
  obtain ⟨rfl, hle, hseen⟩ := hth
  have hnear : s.ops < 2 * n + 2 * 2 ^ k + 2 ^ 63 := by omega
  rw [run, show BitVec.ofNat 64 n + 1 = BitVec.ofNat 64 (n + 1) from
    (BitVec.ofNat_add n 1).symm] at h
  split at h
  · rename_i hdif
    obtain ⟨hcur, hpub⟩ := hs.shared.dif_zero (hle.trans hs.shared.deq_le_enq) hnear
      (Nat.le_succ n) le_rfl hdif
    cases h
    exact hs.goto_same ⟨rfl, hle, hs.shared.ops_le hcur.1, hpub.mpr rfl⟩ rfl rfl
  · split at h
    · rename_i hdif
      cases h
      exact hs.goto_same (hs.shared.deq_dif_neg hle hnear hdif) rfl rfl
    · cases h
      exact hs.goto_same trivial rfl rfl

theorem enqCasFail (hpc : (s.threads t).pc = .enqCas x pos n)
    (hops : s.ops < (s.threads t).seenOps + 2 ^ 62) : Inv k (s.goto t (.enqSeq x pos n)) := by
  have hth := hs.threads t
  rw [ThreadOk, hpc] at hth
  obtain ⟨hpos, hle, hseen, -⟩ := hth
  exact hs.goto_same ⟨hpos, hle, by show s.ops ≤ _; omega⟩ rfl rfl

theorem deqCasFail (hpc : (s.threads t).pc = .deqCas pos n)
    (hops : s.ops < (s.threads t).seenOps + 2 ^ 62) : Inv k (s.goto t (.deqSeq pos n)) := by
  have hth := hs.threads t
  rw [ThreadOk, hpc] at hth
  obtain ⟨hpos, hle, hseen, -⟩ := hth
  exact hs.goto_same ⟨hpos, hle, by show s.ops ≤ _; omega⟩ rfl rfl

theorem run (hops : s.ops < (s.threads t).seenOps + 2 ^ 62)
    (h : s.run t (s.threads t).pc = some s') : Inv k s' := by
  have hed := hs.shared.enq_le_deq
  have hde := hs.shared.deq_le_enq
  cases hpc : (s.threads t).pc with
  | enqLoad x =>
    rw [hpc] at h
    cases h
    refine hs.goto_same ⟨hs.shared.enqPos, le_rfl, ?_⟩ rfl rfl
    simp only [MpmcSys.ops]
    omega
  | enqSeq x pos n =>
    rw [hpc] at h
    exact hs.enqSeq hpc hops h
  | enqCas x pos n =>
    rw [hpc, MpmcSys.run] at h
    split at h
    · rename_i hcas
      cases h
      exact hs.claimEnq hpc hops hcas
    · cases h
      exact hs.enqCasFail hpc hops
  | enqStore x pos n =>
    rw [hpc] at h
    cases h
    exact hs.storeData hpc
  | enqPublish pos n =>
    rw [hpc] at h
    cases h
    exact hs.publish hpc
  | deqLoad =>
    rw [hpc] at h
    cases h
    refine hs.goto_same ⟨hs.shared.deqPos, le_rfl, ?_⟩ rfl rfl
    simp only [MpmcSys.ops]
    omega
  | deqSeq pos n =>
    rw [hpc] at h
    exact hs.deqSeq hpc hops h
  | deqCas pos n =>
    rw [hpc, MpmcSys.run] at h
    split at h
    · rename_i hcas
      cases h
      exact hs.claimDeq hpc hops hcas
    · cases h
      exact hs.deqCasFail hpc hops
  | deqRead pos n =>
    rw [hpc] at h
    cases h
    exact hs.readData hpc
  | deqRelease x pos n =>
    rw [hpc] at h
    cases h
    exact hs.release hpc
  | idle | enqFull | enqDone | deqEmpty | deqDone =>
    rw [hpc] at h
    cases h

/-- **One step.** -/
theorem step {l : MpmcStep α} (hok : NotOvertaken s l) (h : mpmcStep s l = some s') : Inv k s' := by
  cases l with
  | enqueue t x =>
    simp only [mpmcStep] at h
    split at h <;> cases h
    exact hs.goto_same trivial rfl rfl
  | dequeue t =>
    simp only [mpmcStep] at h
    split at h <;> cases h
    exact hs.goto_same trivial rfl rfl
  | run t => exact hs.run hok h
  | casFail t =>
    simp only [mpmcStep] at h
    split at h
    · rename_i hpc
      cases h
      exact hs.enqCasFail hpc hok
    · rename_i hpc
      cases h
      exact hs.deqCasFail hpc hok
    · cases h

end

end Inv

/-! ## A new queue -/

theorem size_ok_iff (size : BitVec 64) :
    (2 ≤ size ∧ size &&& (size - 1) = 0) ↔ ∃ k, 0 < k ∧ size.toNat = 2 ^ k := by
  have htwo : 2 ≤ size ↔ 2 ≤ size.toNat := BitVec.le_def
  have hand (h : 2 ≤ size.toNat) :
      size &&& (size - 1) = 0 ↔ size.toNat &&& (size.toNat - 1) = 0 := by
    have hsub : (size - 1).toNat = size.toNat - 1 := by
      have hlt := size.isLt
      rw [BitVec.toNat_sub_of_le (BitVec.le_def.mpr (by simp; omega))]
      rfl
    rw [← BitVec.toNat_inj, BitVec.toNat_and, hsub]
    rfl
  constructor
  · rintro ⟨hle, hmask⟩
    rw [htwo] at hle
    obtain ⟨k, hk⟩ := (Nat.and_sub_one_eq_zero_iff_isPowerOfTwo (by omega)).mp ((hand hle).mp hmask)
    refine ⟨k, ?_, hk⟩
    rw [Nat.pos_iff_ne_zero]
    rintro rfl
    rw [hk] at hle
    exact absurd hle (by decide)
  · rintro ⟨k, hk, hsize⟩
    have hle : 2 ≤ size.toNat := by
      rw [hsize]
      exact Nat.le_self_pow hk.ne' 2
    refine ⟨htwo.mpr hle, (hand hle).mpr ?_⟩
    exact (Nat.and_sub_one_eq_zero_iff_isPowerOfTwo (by omega)).mpr ⟨k, hsize⟩

theorem newmpmcq_isSome_iff (bufferSize : BitVec 64) (buffer : Nat → α) :
    (newmpmcq bufferSize buffer).isSome ↔ ∃ k, 0 < k ∧ (bufferSize / cellSize).toNat = 2 ^ k := by
  rw [← size_ok_iff]
  simp only [newmpmcq]
  split
  · rename_i hsize
    exact ⟨fun _ => hsize, fun _ => rfl⟩
  · rename_i hsize
    exact ⟨nofun, fun h => absurd h hsize⟩

theorem Inv.initial {bufferSize : BitVec 64} {buffer : Nat → α} {q : Mpmcq α}
    (h : newmpmcq bufferSize buffer = some q) : ∃ k, Inv k (MpmcSys.initial q) := by
  simp only [newmpmcq] at h
  split at h
  swap
  · cases h
  rename_i hsize
  obtain ⟨k, hk, hn⟩ := (size_ok_iff _).mp hsize
  cases h
  have hsmall : 2 ^ k < 2 ^ 60 := by
    have hlt := bufferSize.isLt
    rw [← hn, BitVec.toNat_udiv, show cellSize.toNat = 16 from rfl]
    omega
  have hle : k ≤ 59 := by
    have := (Nat.pow_lt_pow_iff_right (by decide : 1 < 2)).mp hsmall
    omega
  have hmask : bufferSize / cellSize - 1 = BitVec.ofNat 64 (2 ^ k - 1) := by
    rw [← hn]
    apply BitVec.eq_of_toNat_eq
    have hone : (1 : BitVec 64) ≤ bufferSize / cellSize := by
      rw [BitVec.le_def, hn]
      exact Nat.one_le_two_pow
    rw [BitVec.toNat_sub_of_le hone, BitVec.toNat_ofNat, Nat.mod_eq_of_lt (by omega)]
    rfl
  refine ⟨k, ?_, fun _ => trivial, nofun, nofun⟩
  refine ⟨hk, hle, hmask, rfl, rfl, nofun, nofun, nofun, nofun, ?_, nofun, nofun, nofun, nofun,
    List.nodup_nil, rfl⟩
  rintro n ⟨-, hcur⟩
  have hfirst : n < 2 ^ k := hcur.resolve_right Bool.false_ne_true
  simp [MpmcSys.initial, Nat.mod_eq_of_lt hfirst]

/-! ## The queue is a bounded FIFO queue -/

structure MpmcSys.BoundedFifo (s : MpmcSys α) : Prop where
  /-- A successful dequeue returns the value of a successful enqueue, -/
  returned : ∀ n x, (n, x) ∈ s.returns → s.published n = true ∧ s.enqLog[n]? = some x
  /-- of a distinct one each. -/
  distinct : (s.returns.map Prod.fst).Nodup
  /-- The position claimed as the `n`-th by a dequeue gives the value of the one claimed as the
  `n`-th by an enqueue. -/
  fifo : ∀ (n : Nat) x, s.deqLog[n]? = some (some x) → s.enqLog[n]? = some x
  notOverwritten : s.overwritten = false
  bounded : ((List.range s.enqLog.length).filter (fun n => !s.released n)).length ≤ s.capacity
  full : ∀ t n vacant, (s.threads t).pc = .enqFull n vacant → vacant = false
  empty : ∀ t n published, (s.threads t).pc = .deqEmpty n published → published = false

theorem Shared.length_unreleased_le (hs : Shared k s) :
    ((List.range s.enqLog.length).filter (fun n => !s.released n)).length ≤ s.capacity := by
  rw [hs.capacity_eq]
  have hsub : ((List.range s.enqLog.length).filter (fun n => !s.released n)).toFinset ⊆
      Finset.Ico (s.enqLog.length - 2 ^ k) s.enqLog.length := by
    intro n hn
    simp only [mem_toFinset, mem_filter, mem_range, Bool.not_eq_true'] at hn
    rw [Finset.mem_Ico]
    refine ⟨?_, hn.1⟩
    by_contra hlt
    rw [hs.lap n (by omega)] at hn
    cases hn.2
  have hcard := Finset.card_le_card hsub
  rw [toFinset_card_of_nodup (nodup_range.filter _), Nat.card_Ico] at hcard
  exact hcard.trans tsub_tsub_le

/-- **The MPMC queue is a bounded FIFO queue**, for every size that `newmpmcq` accepts and every
run of any number of threads in which no thread is overtaken by `2 ^ 62` operations between two
of its steps. -/
theorem mpmc_bounded_fifo {bufferSize : BitVec 64} {buffer : Nat → α} {q : Mpmcq α}
    (hq : newmpmcq bufferSize buffer = some q)
    (h : Reaches mpmcStep NotOvertaken (MpmcSys.initial q) s) : s.BoundedFifo := by
  obtain ⟨k, hinit⟩ := Inv.initial hq
  have hs : Inv k s := h.invariant (Inv k) (fun _ _ _ hs hok hstep => hs.step hok hstep) hinit
  refine ⟨?_, hs.shared.nodup, hs.shared.log, hs.shared.kept, hs.shared.length_unreleased_le,
    ?_, ?_⟩
  · intro n x hn
    obtain ⟨hrel, hlog⟩ := hs.shared.returns n x hn
    exact ⟨hs.shared.published_of_released hrel, hs.shared.log n x hlog⟩
  · intro t n vacant hpc
    have hth := hs.threads t
    rw [ThreadOk, hpc] at hth
    exact hth
  · intro t n published hpc
    have hth := hs.threads t
    rw [ThreadOk, hpc] at hth
    exact hth

def fifoRun : List (MpmcStep Nat) :=
  [.enqueue 0 7, .run 0, .run 0, .casFail 0, .run 0, .run 0, .dequeue 1, .run 0, .run 0, .run 1,
    .run 1, .run 1, .run 1, .run 1, .dequeue 2, .run 2, .run 2]

def twoCells : Mpmcq Nat := (newmpmcq 32 (fun _ => 0)).getD ⟨fun _ => ⟨0, 0, false⟩, 0, 0, 0⟩

theorem mpmc_bounded_fifo_twoCells :
    newmpmcq 32 (fun _ => 0) = some twoCells ∧
      ∃ s, exec mpmcStep NotOvertaken (.initial twoCells) fifoRun = some s ∧
        s.returns = [(0, 7)] ∧ s.BoundedFifo := by
  have hq : newmpmcq 32 (fun _ => 0) = some twoCells := rfl
  have hrun : (exec mpmcStep NotOvertaken (.initial twoCells) fifoRun).map MpmcSys.returns
      = some [(0, 7)] := by decide +kernel
  obtain ⟨s, hexec, hreturns⟩ := Option.map_eq_some_iff.mp hrun
  exact ⟨hq, s, hexec, hreturns, mpmc_bounded_fifo hq (exec_reaches fifoRun hexec)⟩

end RktIo.Queue
