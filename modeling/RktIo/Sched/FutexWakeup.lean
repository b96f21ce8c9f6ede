import RktIo.Sched.FutexInv
import RktIo.Sched.FutexKey

/-!
# No futex wake-up is lost

A waiter compares the futex word and links its entry in one critical section, and keeps the
lock until it is off its stack. A wake that comes later therefore finds it. The argument
has three parts:

* **`Entered`** — every entry in the queue waits on the address its call was made for, as
  long as nothing is requeued;
* **`settled_of_reaches`** — a call that has compared and is not queued is never queued
  again, and `returns_of_reaches` — one that found another value returns `-EAGAIN`.
-/

namespace RktIo.Sched

open Walk Transition List

variable {s s' : FutexSys}

/-! ## Runs of waits and wakes -/

def FutexArgs.requeues (a : FutexArgs) : Bool :=
  a.futexOp = .requeue || a.futexOp = .cmpRequeue

def waitWake (s : FutexSys) : FutexStep → Bool
  | .switch t _ =>
    match (s.lts t).pc with
    | .locked f => !f.args.requeues
    | _ => true
  | _ => true

abbrev WaitWake (s : FutexSys) (l : FutexStep) : Prop := waitWake s l = true

def Caller.calls (c : Caller) : List CallRec := c.past ++ c.cur.toList

def FutexSys.HasCompared (s : FutexSys) (t : Lt) (k : Nat) (uaddr : BitVec 64) (v : BitVec 32) :
    Prop :=
  ∃ c, (s.lts t).calls[k]? = some c ∧ c.args.futexOp = .wait ∧ c.args.uaddr = uaddr
    ∧ c.args.val = v ∧ c.compared ≠ none

def FutexSys.QueuedIn (s : FutexSys) (t : Lt) (k : Nat) : Prop :=
  (s.lts t).past.length = k ∧ t ∈ s.queues.map FutexQ.owner

def FutexSys.ReturnedEagain (s : FutexSys) (t : Lt) (k : Nat) : Prop :=
  ∃ c, (s.lts t).past[k]? = some c ∧ c.rc = some (-EAGAIN) ∧ c.sleeps = 0

/-! ## Entries and calls -/

def FutexQ.waiter (fq : FutexQ) : Lt × BitVec 64 × BitVec 32 :=
  (fq.owner, fq.uaddr, fq.futexBitset)

def Caller.uaddr (c : Caller) : Option (BitVec 64) := c.cur.map (fun r => r.args.uaddr)

def FutexSys.Entered (s : FutexSys) : Prop :=
  ∀ e ∈ s.queues.map FutexQ.waiter, (s.lts e.1).uaddr = some e.2.1 ∧ e.2.2 ≠ 0#32

variable {queues : List FutexQ} {t : Lt} {k : Nat}

variable {sleepers : Int} {f : Frame} {bitset : BitVec 32}

theorem futexWait_waiter {word : BitVec 64 → BitVec 32} (hbits : bitset ≠ 0#32) :
    ∀ e ∈ (futexWait queues sleepers word t f bitset).queues.map FutexQ.waiter,
      e ∈ queues.map FutexQ.waiter ∨ (e.1 = t ∧ e.2.1 = f.args.uaddr ∧ e.2.2 ≠ 0#32) := by
  intro e he
  unfold futexWait at he
  simp only at he
  split at he
  · rw [map_cons] at he
    rcases mem_cons.mp he with rfl | he
    · right
      split <;> exact ⟨rfl, rfl, hbits⟩
    · exact Or.inl he
  · exact Or.inl he

theorem walk_waiter {σ : Type} {body : FutexQ → σ → Option FutexQ × σ}
    (hbody : ∀ fq s fq' s', body fq s = (some fq', s') → fq'.waiter = fq.waiter) {s : σ} :
    ∀ e ∈ (walk body queues s).kept.map FutexQ.waiter, e ∈ queues.map FutexQ.waiter := by
  intro e he
  obtain ⟨fq', hfq', rfl⟩ := mem_map.mp he
  obtain ⟨fq, hfq, t, t', hb⟩ := kept_of_mem queues hfq'
  rw [hbody fq t fq' t' hb]
  exact mem_map_of_mem hfq

theorem futexWakeBody_waiter {key : BitVec 32} {num : Nat} {fq fq' : FutexQ} {w w' : Nat}
    (h : futexWakeBody key bitset num fq w = (some fq', w')) : fq'.waiter = fq.waiter := by
  unfold futexWakeBody at h
  split at h <;> cases h
  rfl

theorem futexTickBody_waiter {real mntc : BitVec 64} {fq fq' : FutexQ} {u u' : Unit}
    (h : futexTickBody real mntc fq u = (some fq', u')) : fq'.waiter = fq.waiter := by
  unfold futexTickBody at h
  simp only at h
  split at h
  · split at h
    · cases h
    · split at h <;> cases h
      rfl
  · cases h
    rfl

theorem futexSwitch_waiter {word : BitVec 64 → BitVec 32} {junk : Int}
    (hf : f.args.requeues = false) :
    ∀ e ∈ (futexSwitch queues sleepers word t f junk).queues.map FutexQ.waiter,
      e ∈ queues.map FutexQ.waiter ∨ (e.1 = t ∧ e.2.1 = f.args.uaddr ∧ e.2.2 ≠ 0#32) := by
  have hwake (bitset : BitVec 32) :
      ∀ e ∈ (futexWake queues f.args.uaddr f.args.val bitset).kept.map FutexQ.waiter,
        e ∈ queues.map FutexQ.waiter := walk_waiter (fun _ _ _ _ => futexWakeBody_waiter)
  intro e he
  unfold futexSwitch at he
  cases hop : f.args.futexOp with
  | waitBitset =>
    simp only [hop] at he
    split at he
    · exact Or.inl he
    · rename_i hne
      exact futexWait_waiter hne e he
  | wait =>
    simp only [hop] at he
    exact futexWait_waiter (by decide) e he
  | wakeBitset =>
    simp only [hop] at he
    split at he
    · exact Or.inl he
    · exact Or.inl (hwake _ e he)
  | wake =>
    simp only [hop] at he
    exact Or.inl (hwake _ e he)
  | cmpRequeue | requeue => simp [FutexArgs.requeues, hop] at hf
  | invalid =>
    simp only [hop] at he
    exact Or.inl he

theorem FutexSys.leave_queues {unlinked : List FutexQ} {w : Waker}
    (h : s.leave queues sleepers unlinked w = some s') : s'.queues = queues := by
  obtain ⟨lts, _, rfl⟩ := Option.map_eq_some_iff.mp h
  rfl

theorem step_waiter {l : FutexStep} (hok : WaitWake s l) (h : futexStep s l = some s') :
    ∀ e ∈ s'.queues.map FutexQ.waiter, e ∈ s.queues.map FutexQ.waiter
      ∨ ∃ f, (s.lts e.1).pc = .locked f ∧ e.2.1 = f.args.uaddr ∧ e.2.2 ≠ 0#32 := by
  cases l with
  | switch t junk =>
    simp only [futexStep] at h
    split at h
    · rename_i f hpc
      rw [FutexSys.leave_queues h]
      intro e he
      have hf : f.args.requeues = false := by simpa [WaitWake, waitWake, hpc] using hok
      rcases futexSwitch_waiter hf e he with he | ⟨rfl, hu, hb⟩
      · exact Or.inl he
      · exact Or.inr ⟨f, hpc, hu, hb⟩
    · cases h
  | tickLoop k =>
    simp only [futexStep] at h
    split at h
    · rw [FutexSys.leave_queues h]
      intro e he
      exact Or.inl (walk_waiter (fun _ _ _ _ => futexTickBody_waiter) e he)
    · cases h
  | call t args time =>
    simp only [futexStep] at h
    split at h
    · cases h
    · split at h <;> cases h <;> exact fun e he => Or.inl he
  | resume =>
    simp only [futexStep] at h
    split at h
    · cases h
    · split at h <;> cases h
      exact fun e he => Or.inl he
  | acquire t =>
    simp only [futexStep] at h
    split at h
    · split at h <;> cases h
      exact fun e he => Or.inl he
    · cases h
  | tickTry k real mntc =>
    simp only [futexStep] at h
    split at h
    · split at h <;> cases h <;> exact fun e he => Or.inl he
    · cases h
  | _ =>
    simp only [futexStep] at h
    first
      | (cases h; exact fun e he => Or.inl he)
      | (split at h <;> cases h; exact fun e he => Or.inl he)

variable {p p' : Phase} {past past' : List CallRec}

theorem Phase.Move.uaddr_eq (h : Move p past p' past') (hq : (p'.view past').queued = true) :
    (p'.view past').caller.uaddr = (p.view past).caller.uaddr := by
  cases h <;> first | rfl | simp [Phase.view] at hq

theorem mem_owner_of_waiter {e : Lt × BitVec 64 × BitVec 32} (h : e ∈ queues.map FutexQ.waiter) :
    e.1 ∈ queues.map FutexQ.owner := by
  obtain ⟨fq, hfq, rfl⟩ := mem_map.mp h
  exact mem_map_of_mem hfq

theorem FutexSys.Entered.step (he : s.Entered) (hs : s.Inv) {l : FutexStep} (hok : WaitWake s l)
    (h : futexStep s l = some s') : s'.Entered := by
  intro e hmem
  obtain ⟨p, past, p', past', hv, hv', hmove, _⟩ := (hs.step_ok h).moves e.1
  have hlt : s.lts e.1 = (p.view past).caller := congrArg View.caller hv
  have hlt' : s'.lts e.1 = (p'.view past').caller := congrArg View.caller hv'
  have hq : (p'.view past').queued = true := by
    rw [← hv']
    exact decide_eq_true (mem_owner_of_waiter hmem)
  have hsame : (s'.lts e.1).uaddr = (s.lts e.1).uaddr := by
    rw [hlt, hlt']
    exact hmove.uaddr_eq hq
  rw [hsame]
  rcases step_waiter hok h e hmem with hold | ⟨f, hpc, hu, hb⟩
  · exact he e hold
  · refine ⟨?_, hb⟩
    rw [hlt] at hpc ⊢
    rw [hu]
    cases p <;> simp [Phase.view] at hpc
    rw [hpc]
    rfl

/-! ## A wake clears its address -/

variable {uaddr : BitVec 64}

theorem futexWake_kept_not_wakeable {num : BitVec 32}
    (hnum : (wakeable queues uaddr bitset).length ≤ num.toNat) :
    wakeable (futexWake queues uaddr num bitset).kept uaddr bitset = [] := by
  have hperm : ((futexWake queues uaddr num bitset).kept.map id
      ++ (futexWake queues uaddr num bitset).unlinked.map id).Perm (queues.map id) :=
    walk_perm id (fun fq w fq' w' h => by
      unfold futexWakeBody at h
      split at h <;> cases h
      rfl) queues 0
  rw [map_id, map_id, map_id, futexWake_unlinked, take_of_length_le hnum]
    at hperm
  have hfilter : (wakeable ((futexWake queues uaddr num bitset).kept
      ++ wakeable queues uaddr bitset) uaddr bitset).Perm (wakeable queues uaddr bitset) :=
    hperm.filter _
  have hlen := hfilter.length_eq
  have hidem : wakeable (wakeable queues uaddr bitset) uaddr bitset
      = wakeable queues uaddr bitset := by simp [wakeable, filter_filter]
  rw [wakeable, filter_append, length_append] at hlen
  change (wakeable _ uaddr bitset).length + (wakeable (wakeable queues uaddr bitset) uaddr
    bitset).length = _ at hlen
  rw [hidem] at hlen
  exact length_eq_zero_iff.mp (by omega)

/-- **A wake of enough waiters leaves no entry of its address.** -/
theorem FutexSys.Entered.switch_wake_clears (he : s.Entered) {junk : Int}
    (hpc : (s.lts t).pc = .locked f) (hop : f.args.futexOp = .wake
      ∨ (f.args.futexOp = .wakeBitset ∧ f.args.val3 = FUTEX_BITSET_MATCH_ANY))
    (hnum : (wakeable s.queues f.args.uaddr FUTEX_BITSET_MATCH_ANY).length ≤ f.args.val.toNat)
    (h : futexStep s (.switch t junk) = some s') : ∀ fq ∈ s'.queues, fq.uaddr ≠ f.args.uaddr := by
  have hqueues : s'.queues
      = (futexWake s.queues f.args.uaddr f.args.val FUTEX_BITSET_MATCH_ANY).kept := by
    simp only [futexStep, hpc] at h
    rw [FutexSys.leave_queues h]
    rcases hop with hop | ⟨hop, hval⟩
    · simp only [futexSwitch, hop]
      rfl
    · simp only [futexSwitch, hop, hval]
      rfl
  intro fq hfq haddr
  rw [hqueues] at hfq
  have hold : fq.waiter ∈ s.queues.map FutexQ.waiter :=
    walk_waiter (fun _ _ _ _ => futexWakeBody_waiter) _ (mem_map_of_mem hfq)
  have hmem : fq ∈ wakeable (futexWake s.queues f.args.uaddr f.args.val
      FUTEX_BITSET_MATCH_ANY).kept f.args.uaddr FUTEX_BITSET_MATCH_ANY := by
    simp only [wakeable, mem_filter, decide_eq_true_eq]
    refine ⟨hfq, by rw [fq.keyed, haddr], ?_⟩
    rw [show FUTEX_BITSET_MATCH_ANY = BitVec.allOnes 32 from rfl, BitVec.and_allOnes]
    exact (he _ hold).2
  rw [futexWake_kept_not_wakeable hnum] at hmem
  simp at hmem

/-! ## Calls that have compared -/

def View.Compared (k : Nat) (uaddr : BitVec 64) (v : View) : Prop :=
  k < v.caller.past.length ∨ (k = v.caller.past.length
    ∧ ∃ c, v.caller.cur = some c ∧ c.compared ≠ none ∧ c.args.uaddr = uaddr)

def View.Settled (k : Nat) (v : View) : Prop :=
  k < v.caller.past.length ∨ (k = v.caller.past.length
    ∧ (∃ c, v.caller.cur = some c ∧ c.compared ≠ none) ∧ v.queued = false)

def View.Mismatched (k : Nat) (v : View) : Prop :=
  (k = v.caller.past.length ∧ v.caller.pc = .unlocking (-EAGAIN)
      ∧ ∃ c, v.caller.cur = some c ∧ c.sleeps = 0)
    ∨ ∃ c, v.caller.past[k]? = some c ∧ c.rc = some (-EAGAIN) ∧ c.sleeps = 0

theorem Phase.Move.compared (h : Move p past p' past')
    (hc : (p.view past).Compared k uaddr) : (p'.view past').Compared k uaddr := by
  cases h <;> simp [View.Compared, Phase.view, CallRec.locked, CallRec.slept, CallRec.unlocked,
    CallRec.handed] at hc ⊢ <;> grind

theorem Phase.Move.settled (h : Move p past p' past') (hc : (p.view past).Settled k) :
    (p'.view past').Settled k := by
  cases h <;> simp [View.Settled, Phase.view, CallRec.locked, CallRec.slept, CallRec.unlocked,
    CallRec.handed] at hc ⊢ <;> grind

theorem Phase.Move.mismatched (h : Move p past p' past') (hc : (p.view past).Mismatched k) :
    (p'.view past').Mismatched k := by
  -- a record stays where it is when another one is appended
  have hkeep : ∀ (d : CallRec), (∃ c, past[k]? = some c ∧ c.rc = some (-EAGAIN) ∧ c.sleeps = 0) →
      ∃ c, (past ++ [d])[k]? = some c ∧ c.rc = some (-EAGAIN) ∧ c.sleeps = 0 := by
    rintro d ⟨c, hget, hc⟩
    exact ⟨c, by rw [List.getElem?_append_left (List.getElem?_eq_some_iff.mp hget).1, hget], hc⟩
  rcases hc with ⟨hk, hpc, c, hcur, hsl⟩ | hold
  · cases h with
    | stay => exact Or.inl ⟨hk, hpc, c, hcur, hsl⟩
    | release err _ a compared rc =>
      cases hpc
      right
      rw [hk]
      exact ⟨_, List.getElem?_concat_length, rfl, rfl⟩
    | _ => simp [Phase.view] at hpc
  · right
    cases h with
    | reject | release | wakeRet => exact hkeep _ hold
    | stay p => cases p <;> exact hold
    | _ => exact hold

theorem FutexSys.Inv.view_of_reaches {P : View → Prop}
    (hP : ∀ {p p' : Phase} {past past' : List CallRec}, Phase.Move p past p' past' →
      P (p.view past) → P (p'.view past')) {ok : FutexSys → FutexStep → Prop} (hs : s.Inv)
    (h : Reaches futexStep ok s s') (ht : P (s.view t)) : P (s'.view t) := by
  have hinv : s'.Inv ∧ P (s'.view t) := by
    refine h.invariant (fun s => s.Inv ∧ P (s.view t)) ?_ ⟨hs, ht⟩
    rintro s₁ l s₂ ⟨hs₁, ht₁⟩ _ hstep
    have hok := hs₁.step_ok hstep
    obtain ⟨p, past, p', past', hv, hv', hmove, _⟩ := hok.moves t
    rw [hv] at ht₁
    exact ⟨hok.inv, by rw [hv']; exact hP hmove ht₁⟩
  exact hinv.2

theorem FutexSys.Initial.entered_of_reaches {s₀ : FutexSys} (h₀ : s₀.Initial)
    (h : Reaches futexStep WaitWake s₀ s) : s.Entered := by
  have hinv : s.Inv ∧ s.Entered := by
    refine h.invariant (fun s => s.Inv ∧ s.Entered) ?_ ⟨h₀.inv, ?_⟩
    · rintro s₁ l s₂ ⟨hs₁, he₁⟩ hok hstep
      exact ⟨(hs₁.step_ok hstep).inv, he₁.step hs₁ hok hstep⟩
    · intro e he
      simp [h₀.queues] at he
  exact hinv.2

/-! ## The main result -/

theorem FutexSys.HasCompared.compared {v : BitVec 32}
    (h : s.HasCompared t k uaddr v) : (s.view t).Compared k uaddr := by
  obtain ⟨c, hget, _, haddr, _, hcmp⟩ := h
  by_cases hk : k < (s.lts t).past.length
  · exact Or.inl hk
  · right
    rw [Caller.calls, List.getElem?_append_right (by omega)] at hget
    cases hcur : (s.lts t).cur with
    | none => simp [hcur] at hget
    | some d =>
      rw [hcur] at hget
      obtain ⟨hlt, hd⟩ := List.getElem?_eq_some_iff.mp hget
      simp at hlt
      refine ⟨?_, d, hcur, ?_⟩
      · simp only [FutexSys.view]
        omega
      · simp at hd
        rw [hd]
        exact ⟨hcmp, haddr⟩

theorem FutexSys.Inv.eagain_of_mismatch (hs : s.Inv) {g : Frame} {j : Int}
    (hpc : (s.lts t).pc = .locked g) (hop : g.args.futexOp = .wait)
    (hne : s.word g.args.uaddr ≠ g.args.val) (h : futexStep s (.switch t j) = some s')
    {ok : FutexSys → FutexStep → Prop} {s'' : FutexSys} (hrun : Reaches futexStep ok s' s'') :
    ¬ s''.QueuedIn t (s.lts t).past.length
      ∧ (s''.ReturnedEagain t (s.lts t).past.length
        ∨ ∃ s₁, futexStep s'' (.release t) = some s₁
          ∧ s₁.ReturnedEagain t (s.lts t).past.length) := by
  have hs' := (hs.step_ok h).inv
  obtain ⟨p, past, hv, _, hlt, _⟩ := hs.phase t
  rw [hlt] at hpc
  cases p with
  | locked err f =>
    cases hpc
    simp only [futexStep, hlt, Phase.view, futexSwitch, hop, futexWait, hne, if_false,
      Caller.switched, FutexSys.leave_nil] at h
    have hstate : s' = s.setLt t ⟨.unlocking (-EAGAIN), err, false,
        some (.done g.args (some (s.word g.args.uaddr))), past⟩ := (Option.some.inj h).symm
    have hview : (s'.view t).Mismatched past.length := by
      rw [hstate, FutexSys.view_setLt_self]
      exact Or.inl ⟨rfl, rfl, _, rfl, rfl⟩
    have hs'' := (hs'.view_of_reaches Phase.Move.mismatched hrun hview)
    rw [hlt]
    rcases hs'' with ⟨hk, hpc, c, hcur, hsl⟩ | ⟨c, hget, hc⟩
    · have hk' : (s''.lts t).past.length = past.length := hk.symm
      have hpc' : (s''.lts t).pc = .unlocking (-EAGAIN) := hpc
      have hcur' : (s''.lts t).cur = some c := hcur
      refine ⟨?_, Or.inr ?_⟩
      · rintro ⟨_, hq⟩
        obtain ⟨p, past'', _, _, hlt'', _, hqueued, _⟩ := (hs'.of_reaches hrun).phase t
        have hp := hqueued.mp hq
        rw [hlt''] at hpc'
        cases p <;> simp [Phase.view] at hp hpc'
      · simp only [futexStep, hpc']
        refine ⟨_, rfl, ?_⟩
        refine ⟨{ c with releases := c.releases + 1, rc := some (-EAGAIN) }, ?_, rfl, hsl⟩
        simp only [FutexSys.setLt, Function.update_self, Caller.ret, Caller.note, hcur',
          Option.map_some, Option.toList_some, Phase.view, ← hk']
        exact List.getElem?_concat_length
    · refine ⟨?_, Or.inl ⟨c, hget, hc⟩⟩
      rintro ⟨hk, _⟩
      have hlt' := (List.getElem?_eq_some_iff.mp hget).1
      simp only [FutexSys.view] at hlt'
      simp only [Phase.view] at hk
      omega
  | _ => simp [Phase.view] at hpc

/-- **No wake-up is lost.** Let a store to `uaddr` be followed by the critical section of a
wake of `uaddr`, of at least as many waiters as are queued with its key, with all bits set.
Then no wait on `uaddr` that compared before the store is queued at any time after that, so
neither when the wake returns. And a wait on `uaddr` that compares after the store, while
the word differs from its value, is never queued and returns `-EAGAIN`. -/
theorem no_lost_futex_wakeup (s₀ s₁ s₁' s₂ s₂' s₃ : FutexSys) (uaddr : BitVec 64)
    (x v : BitVec 32) (waker : Lt) (f : Frame) (junk : Int) (h₀ : s₀.Initial)
    (h₀₁ : Reaches futexStep WaitWake s₀ s₁)
    (hstore : futexStep s₁ (.store uaddr x) = some s₁')
    (h₁₂ : Reaches futexStep WaitWake s₁' s₂) (hpc : (s₂.lts waker).pc = .locked f)
    (hop : f.args.futexOp = .wake
      ∨ (f.args.futexOp = .wakeBitset ∧ f.args.val3 = FUTEX_BITSET_MATCH_ANY))
    (haddr : f.args.uaddr = uaddr)
    (hnum : (wakeable s₂.queues uaddr FUTEX_BITSET_MATCH_ANY).length ≤ f.args.val.toNat)
    (hwake : futexStep s₂ (.switch waker junk) = some s₂')
    (h₂₃ : Reaches futexStep WaitWake s₂' s₃) :
    (∀ t k, s₁.HasCompared t k uaddr v → ¬ s₃.QueuedIn t k)
      ∧ ∀ r, Reaches futexStep WaitWake s₁' r →
          ∀ t g j r', (r.lts t).pc = .locked g → g.args.futexOp = .wait →
            g.args.uaddr = uaddr → g.args.val = v → r.word uaddr ≠ v →
            futexStep r (.switch t j) = some r' →
            ∀ r'', Reaches futexStep WaitWake r' r'' →
              ¬ r''.QueuedIn t (r.lts t).past.length
                ∧ (r''.ReturnedEagain t (r.lts t).past.length
                  ∨ ∃ q, futexStep r'' (.release t) = some q
                    ∧ q.ReturnedEagain t (r.lts t).past.length) := by
  subst haddr
  have hs₁ := h₀.inv.of_reaches h₀₁
  have h₁₁ : Reaches futexStep WaitWake s₁ s₁' := .tail (.store f.args.uaddr x) .refl rfl hstore
  have hnoreq : WaitWake s₂ (.switch waker junk) := by
    rcases hop with hop | ⟨hop, _⟩ <;> simp [WaitWake, waitWake, hpc, FutexArgs.requeues, hop]
  have h₁₂' : Reaches futexStep WaitWake s₁ s₂' := .tail _ (h₁₁.trans h₁₂) hnoreq hwake
  have he₂ := h₀.entered_of_reaches (h₀₁.trans (h₁₁.trans h₁₂))
  have he₂' := h₀.entered_of_reaches (h₀₁.trans h₁₂')
  have hclear := he₂.switch_wake_clears hpc hop hnum hwake
  refine ⟨?_, ?_⟩
  · intro t k hcmp
    have hcmp' := hs₁.view_of_reaches Phase.Move.compared h₁₂' hcmp.compared
    -- the wake found the entry of the call, if there still was one
    have hset : (s₂'.view t).Settled k := by
      rcases hcmp' with hk | ⟨hk, c, hcur, hc, hu⟩
      · exact Or.inl hk
      · refine Or.inr ⟨hk, ⟨c, hcur, hc⟩, ?_⟩
        rw [FutexSys.view, decide_eq_false_iff_not]
        intro hmem
        obtain ⟨fq, hfq, rfl⟩ := List.mem_map.mp hmem
        have hent := (he₂' fq.waiter (List.mem_map_of_mem hfq)).1
        apply hclear fq hfq
        have hcur' : (s₂'.lts fq.owner).cur = some c := hcur
        simp only [Caller.uaddr, FutexQ.waiter, hcur', Option.map_some, Option.some.injEq] at hent
        rw [← hent, hu]
    have hset₃ := ((h₀.inv.of_reaches (h₀₁.trans h₁₂')).view_of_reaches Phase.Move.settled h₂₃ hset)
    rintro ⟨hk, hq⟩
    rcases hset₃ with hlt | ⟨_, _, hnq⟩
    · simp only [FutexSys.view] at hlt
      omega
    · rw [FutexSys.view, decide_eq_false_iff_not] at hnq
      exact hnq hq
  · intro r hr t g j r' hpc' hop' hu hv hne hstep r'' hrun
    refine FutexSys.Inv.eagain_of_mismatch (h₀.inv.of_reaches (h₀₁.trans (h₁₁.trans hr))) hpc' hop'
      ?_ hstep hrun
    rw [hu, hv]
    exact hne

def wakeupState (n : Nat) : FutexSys :=
  (exec futexStep WaitWake .idle (wakeupRun.take n)).getD .idle

theorem no_lost_futex_wakeup_waiter :
    Reaches futexStep WaitWake .idle (wakeupState 4)
      ∧ (wakeupState 4).HasCompared 1 0 0x1000 0 ∧ (wakeupState 4).QueuedIn 1 0
      ∧ Reaches futexStep WaitWake (wakeupState 4) (wakeupState 8)
      ∧ ¬ (wakeupState 8).QueuedIn 1 0 := by
  have h₀₁ : Reaches futexStep WaitWake .idle (wakeupState 4) :=
    exec_reaches (wakeupRun.take 4) rfl
  have hstore : futexStep (wakeupState 4) (.store 0x1000 1) = some (wakeupState 5) := rfl
  have h₁₂ : Reaches futexStep WaitWake (wakeupState 5) (wakeupState 7) :=
    exec_reaches [.call 2 wakeArgs ⟨0, 0⟩, .acquire 2] rfl
  have hwake : futexStep (wakeupState 7) (.switch 2 0) = some (wakeupState 8) := rfl
  have hcmp : (wakeupState 4).HasCompared 1 0 0x1000 0 :=
    ⟨_, rfl, by decide, rfl, rfl, by decide⟩
  have hmain := no_lost_futex_wakeup .idle (wakeupState 4) (wakeupState 5) (wakeupState 7)
    (wakeupState 8) (wakeupState 8) 0x1000 1 0 2 ⟨wakeArgs, CLOCK_MONOTONIC, ⟨0, 0⟩⟩ 0
    FutexSys.idle_initial h₀₁ hstore h₁₂ rfl (by decide) rfl (by decide) hwake .refl
  refine ⟨h₀₁, hcmp, ⟨by decide, by decide⟩, ?_, hmain.1 1 0 hcmp⟩
  exact exec_reaches [.store 0x1000 1, .call 2 wakeArgs ⟨0, 0⟩, .acquire 2, .switch 2 0] rfl

end RktIo.Sched
