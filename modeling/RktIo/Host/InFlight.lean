import RktIo.Host.Callers

/-!
# A request on its way

## The architecture

* `Token` — where the number of a slot is between its submission and its return;
* `Tokens` — the queues and the host threads hold what the tokens say.
-/

namespace RktIo.Host

open Function

/-! ## One request -/

structure HostRequest.RunAs (req : HostRequest) (e : Execution) : Prop where
  number : e.syscallno = req.syscallno
  args : req.args <+: e.args

/-- The request has been executed once and `v` was the answer; if it is asynchronous it went
through the return queue once and its caller was resumed once, otherwise never. -/
structure CallRecord.Delivered (r : CallRecord) (v : Word) : Prop where
  executed : ∃ e, r.execs = [e] ∧ r.req.RunAs e ∧ e.ret = v
  sync : r.sync = true → r.pushes = 0 ∧ r.resumes = 0
  async : r.sync = false → r.pushes = 1 ∧ r.resumes = 1

structure CallRecord.Filled (r : CallRecord) (sc : SyscallT) : Prop where
  fresh : r.execs = []
  number : sc.word = r.req.syscallno
  args : r.req.args <+: sc.args

def CallRecord.Answered (r : CallRecord) (sc : SyscallT) : Prop :=
  ∃ e, r.execs = [e] ∧ r.req.RunAs e ∧ e.ret = sc.word

inductive Token where
  | absent
  | queued
  | host (h : Nat) (st : HostStage)
  | returned
  deriving DecidableEq

def SpinOk (sc : SyscallT) (r : CallRecord) : Token → Prop
  | .queued | .host _ .exec => sc.status = 1 ∧ r.Filled sc
  | .host _ .check | .host _ .store => sc.status = 1 ∧ r.Answered sc
  | .absent => sc.status = 2 ∧ r.Answered sc
  | .host _ .push | .returned => False

def WaitOk (sc : SyscallT) (r : CallRecord) : Token → Prop
  | .queued | .host _ .exec => r.pushes = 0 ∧ r.Filled sc
  | .host _ .check | .host _ .push => r.pushes = 0 ∧ r.Answered sc
  | .returned => r.pushes = 1 ∧ r.Answered sc
  | .host _ .store | .absent => False

def CallOk (c : Caller) (pc : CallPc) (sc : SyscallT) (r : CallRecord) (tok : Token) : Prop :=
  match pc with
  | .idle | .fill .. => tok = .absent ∧ sc.status = 0
  | .switch _ =>
    tok = .absent ∧ sc.status = 0 ∧ r.caller = c ∧ r.pushes = 0 ∧ r.resumes = 0 ∧ r.sync = false ∧
      r.Filled sc
  | .yielded _ =>
    tok = .absent ∧ sc.status = 0 ∧ r.caller = c ∧ r.pushes = 0 ∧ r.resumes = 0 ∧ r.sync = false ∧
      r.Filled sc ∧ ∃ a, c = .lthread a
  | .leave _ | .submit _ =>
    tok = .absent ∧ sc.status = 1 ∧ r.caller = c ∧ r.pushes = 0 ∧ r.resumes = 0 ∧ r.sync = true ∧
      r.Filled sc
  | .spin _ =>
    r.caller = c ∧ r.pushes = 0 ∧ r.resumes = 0 ∧ r.sync = true ∧ SpinOk sc r tok
  | .waiting _ =>
    r.caller = c ∧ r.resumes = 0 ∧ r.sync = false ∧ sc.status = 0 ∧ (∃ a, c = .lthread a) ∧
      WaitOk sc r tok
  | .readRet _ => tok = .absent ∧ r.caller = c ∧ r.Delivered sc.word
  | .clear v _ => tok = .absent ∧ r.caller = c ∧ r.Delivered v

variable {r : CallRecord} {sc : SyscallT}

theorem CallRecord.Filled.answered (h : r.Filled sc) (ret : Word) :
    ({ r with execs := r.execs ++ [⟨sc.word, sc.args, ret⟩] } : CallRecord).Answered
      { sc with word := ret } :=
  ⟨⟨sc.word, sc.args, ret⟩, by simp [h.fresh], ⟨h.number, h.args⟩, rfl⟩

/-! ### What the steps on a slot do to it -/

variable {tok : Token}

section
variable {c : Caller} {pc : CallPc} {sc : SyscallT} {r : CallRecord} {h : Nat}

theorem CallOk.fill {req : HostRequest} {next : Option HostRequest}
    (hok : CallOk c (.fill req next) sc r tok) :
    CallOk c (.switch next) (sc.fill req) { caller := c, req := req } tok :=
  ⟨hok.1, hok.2, rfl, rfl, rfl, rfl, rfl, rfl, List.prefix_append _ _⟩

theorem CallOk.waits (hok : CallOk c pc sc r tok) (htok : tok ≠ .absent) :
    ∃ next, pc = .spin next ∨ pc = .waiting next := by
  cases pc with
  | spin next => exact ⟨next, .inl rfl⟩
  | waiting next => exact ⟨next, .inr rfl⟩
  | _ => exact absurd hok.1 htok

theorem CallOk.take (hok : CallOk c pc sc r .queued) : CallOk c pc sc r (.host h .exec) := by
  obtain ⟨next, rfl | rfl⟩ := hok.waits (by simp)
  · exact hok
  · exact hok

theorem CallOk.exec (hok : CallOk c pc sc r (.host h .exec)) (ret : Word) :
    CallOk c pc { sc with word := ret }
      { r with execs := r.execs ++ [⟨sc.word, sc.args, ret⟩] } (.host h .check) := by
  obtain ⟨next, rfl | rfl⟩ := hok.waits (by simp)
  · obtain ⟨hcaller, hpush, hres, hsync, hstatus, hfilled⟩ := hok
    exact ⟨hcaller, hpush, hres, hsync, hstatus, hfilled.answered ret⟩
  · obtain ⟨hcaller, hres, hsync, hstatus, hlt, hpush, hfilled⟩ := hok
    exact ⟨hcaller, hres, hsync, hstatus, hlt, hpush, hfilled.answered ret⟩

theorem CallOk.check (hok : CallOk c pc sc r (.host h .check)) :
    CallOk c pc sc r (.host h (if sc.status = 1 then .store else .push)) := by
  obtain ⟨next, rfl | rfl⟩ := hok.waits (by simp)
  · have hone : sc.status = 1 := hok.2.2.2.2.1
    rw [if_pos hone]
    exact hok
  · have hzero : sc.status = 0 := hok.2.2.2.1
    rw [if_neg (by omega)]
    exact hok

theorem CallOk.store (hok : CallOk c pc sc r (.host h .store)) :
    CallOk c pc { sc with status := 2 } r .absent := by
  obtain ⟨next, rfl | rfl⟩ := hok.waits (by simp)
  · obtain ⟨hcaller, hpush, hres, hsync, -, hans⟩ := hok
    exact ⟨hcaller, hpush, hres, hsync, rfl, hans⟩
  · exact hok.2.2.2.2.2.elim

theorem CallOk.push (hok : CallOk c pc sc r (.host h .push)) :
    CallOk c pc sc { r with pushes := r.pushes + 1 } .returned := by
  obtain ⟨next, rfl | rfl⟩ := hok.waits (by simp)
  · exact hok.2.2.2.2.elim
  · obtain ⟨hcaller, hres, hsync, hstatus, hlt, hpush, hans⟩ := hok
    exact ⟨hcaller, hres, hsync, hstatus, hlt, congrArg (· + 1) hpush, hans⟩

theorem CallOk.resume (hok : CallOk c pc sc r .returned) :
    ∃ next a, pc = .waiting next ∧ c = .lthread a ∧
      CallOk c (.readRet next) sc { r with resumes := r.resumes + 1 } .absent := by
  obtain ⟨next, rfl | rfl⟩ := hok.waits (by simp)
  · exact hok.2.2.2.2.elim
  · obtain ⟨hcaller, hres, hsync, -, ⟨a, hc⟩, hpush, hans⟩ := hok
    exact ⟨next, a, rfl, hc, rfl, hcaller, hans, fun h => (nomatch hsync.symm.trans h),
      fun _ => ⟨hpush, congrArg (· + 1) hres⟩⟩

end

/-! ## Requests in progress -/

def CallPc.requested : CallPc → Bool
  | .idle | .fill .. => false
  | _ => true

/-- A request in progress has been executed once at most, as it was written, its caller is
resumed after that only, and a synchronous one stays out of the return queue. -/
structure CallRecord.InProgress (r : CallRecord) : Prop where
  atMostOnce : r.execs.length ≤ 1
  asWritten : ∀ e ∈ r.execs, r.req.RunAs e
  resumed : r.resumes = 0 ∨ r.resumes = 1 ∧ r.execs.length = 1
  sync : r.sync = true → r.pushes = 0 ∧ r.resumes = 0

theorem CallRecord.Filled.inProgress (h : r.Filled sc)
    (hres : r.resumes = 0) (hsync : r.sync = true → r.pushes = 0) : r.InProgress where
  atMostOnce := by simp [h.fresh]
  asWritten := by simp [h.fresh]
  resumed := .inl hres
  sync := fun hs => ⟨hsync hs, hres⟩

theorem CallRecord.Answered.inProgress (h : r.Answered sc)
    (hres : r.resumes = 0) (hsync : r.sync = true → r.pushes = 0) : r.InProgress := by
  obtain ⟨e, he, hrun, -⟩ := h
  exact ⟨by simp [he], by simpa [he] using hrun, .inl hres, fun hs => ⟨hsync hs, hres⟩⟩

theorem CallRecord.Delivered.inProgress {v : Word} (h : r.Delivered v) :
    r.InProgress := by
  obtain ⟨e, he, hrun, -⟩ := h.executed
  refine ⟨by simp [he], by simpa [he] using hrun, ?_, h.sync⟩
  cases hs : r.sync with
  | true => exact .inl (h.sync hs).2
  | false => exact .inr ⟨(h.async hs).2, by simp [he]⟩

theorem CallOk.inProgress {c : Caller} {pc : CallPc}
    (hok : CallOk c pc sc r tok) (hpc : pc.requested = true) : r.caller = c ∧ r.InProgress := by
  cases pc with
  | idle | fill req next => cases hpc
  | switch next | leave next | submit next =>
    obtain ⟨-, -, hcaller, hpush, hres, -, hfilled⟩ := hok
    exact ⟨hcaller, hfilled.inProgress hres (fun _ => hpush)⟩
  | yielded next =>
    obtain ⟨-, -, hcaller, hpush, hres, -, hfilled, -⟩ := hok
    exact ⟨hcaller, hfilled.inProgress hres (fun _ => hpush)⟩
  | spin next =>
    obtain ⟨hcaller, hpush, hres, -, hspin⟩ := hok
    refine ⟨hcaller, ?_⟩
    unfold SpinOk at hspin
    split at hspin
    · exact hspin.2.inProgress hres (fun _ => hpush)
    · exact hspin.2.inProgress hres (fun _ => hpush)
    · exact hspin.2.inProgress hres (fun _ => hpush)
    · exact hspin.2.inProgress hres (fun _ => hpush)
    · exact hspin.2.inProgress hres (fun _ => hpush)
    all_goals exact hspin.elim
  | waiting next =>
    obtain ⟨hcaller, hres, hsync, -, -, hwait⟩ := hok
    have hno : r.sync = true → r.pushes = 0 := fun h => (nomatch hsync.symm.trans h)
    refine ⟨hcaller, ?_⟩
    unfold WaitOk at hwait
    split at hwait
    · exact hwait.2.inProgress hres hno
    · exact hwait.2.inProgress hres hno
    · exact hwait.2.inProgress hres hno
    · exact hwait.2.inProgress hres hno
    · exact hwait.2.inProgress hres hno
    all_goals exact hwait.elim
  | readRet next | clear v next => exact ⟨hok.2.1, hok.2.2.inProgress⟩

variable {i t : Nat} {p : Token} {st : HostStage}

namespace HostCallSys

variable {s s' : HostCallSys} {tok : Nat → Token}

/-! ## Where the slots are -/

structure Tokens (s : HostCallSys) (tok : Nat → Token) : Prop where
  queued : ∀ i, i ∈ s.syscallQueue ↔ tok i = .queued
  queuedOnce : s.syscallQueue.Nodup
  host : ∀ h st i, s.hosts h = some (st, i) ↔ tok i = .host h st
  returned : ∀ i, i ∈ s.returnQueue ↔ tok i = .returned
  returnedOnce : s.returnQueue.Nodup

theorem token_update_iff {j : Nat} {q : Token} (hi : tok i ≠ q) (hp : p ≠ q) :
    update tok i p j = q ↔ tok j = q := by
  rw [update_apply]
  split
  · subst j
    exact iff_of_false hp hi
  · rfl

section

variable (h : s.Tokens tok)

include h

theorem Tokens.queued_frame (hq : s'.syscallQueue = s.syscallQueue) (hi : tok i ≠ .queued)
    (hp : p ≠ .queued) : ∀ j, j ∈ s'.syscallQueue ↔ update tok i p j = .queued := by
  intro j
  rw [hq, h.queued j, token_update_iff hi hp]

theorem Tokens.returned_frame (hr : s'.returnQueue = s.returnQueue) (hi : tok i ≠ .returned)
    (hp : p ≠ .returned) : ∀ j, j ∈ s'.returnQueue ↔ update tok i p j = .returned := by
  intro j
  rw [hr, h.returned j, token_update_iff hi hp]

theorem Tokens.host_frame (hh : s'.hosts = s.hosts) (hi : ∀ t st, tok i ≠ .host t st)
    (hp : ∀ t st, p ≠ .host t st) :
    ∀ t st j, s'.hosts t = some (st, j) ↔ update tok i p j = .host t st := by
  intro t st j
  rw [hh, h.host t st j, token_update_iff (hi t st) (hp t st)]

theorem Tokens.host_leave (hheld : s.hosts t = some (st, i))
    (hh : s'.hosts = update s.hosts t none) (hp : ∀ t st, p ≠ .host t st) :
    ∀ t' st' j, s'.hosts t' = some (st', j) ↔ update tok i p j = .host t' st' := by
  intro t' st' j
  have hold := h.host t' st' j
  have hi := (h.host t st i).mp hheld
  have hp' := hp t' st'
  rw [hh]
  grind

theorem Tokens.submit (hi : tok i = .absent) (hq : s'.syscallQueue = s.syscallQueue ++ [i])
    (hh : s'.hosts = s.hosts) (hr : s'.returnQueue = s.returnQueue) :
    s'.Tokens (update tok i .queued) where
  queued := by
    intro j
    have := h.queued j
    rw [hq]
    by_cases hji : j = i <;> simp [hji, this]
  queuedOnce := by
    rw [hq]
    have := h.queued i
    simp only [List.nodup_append, h.queuedOnce]
    grind
  host := h.host_frame hh (by simp [hi]) (by simp)
  returned := h.returned_frame hr (by simp [hi]) (by simp)
  returnedOnce := hr ▸ h.returnedOnce

theorem Tokens.take {rest : List Nat} (hidle : s.hosts t = none) (hq : s.syscallQueue = i :: rest)
    (hq' : s'.syscallQueue = rest) (hh : s'.hosts = update s.hosts t (some (.exec, i)))
    (hr : s'.returnQueue = s.returnQueue) :
    s'.Tokens (update tok i (.host t .exec)) where
  queued := by
    intro j
    have := h.queued j
    have := h.queuedOnce
    grind
  queuedOnce := by
    have := h.queuedOnce
    grind
  host := by
    intro t' st j
    have := h.host t' st j
    have := h.queued i
    rw [hh]
    grind
  returned := by
    have hi : tok i = .queued := (h.queued i).mp (by simp [hq])
    exact h.returned_frame hr (by simp [hi]) (by simp)
  returnedOnce := hr ▸ h.returnedOnce

theorem Tokens.stage {st' : HostStage} (hheld : s.hosts t = some (st, i))
    (hq : s'.syscallQueue = s.syscallQueue) (hh : s'.hosts = update s.hosts t (some (st', i)))
    (hr : s'.returnQueue = s.returnQueue) :
    s'.Tokens (update tok i (.host t st')) where
  queued := h.queued_frame hq (by simp [(h.host t st i).mp hheld]) (by simp)
  queuedOnce := hq ▸ h.queuedOnce
  host := by
    intro t' st'' j
    have := h.host t' st'' j
    have := h.host t st i
    rw [hh]
    grind
  returned := h.returned_frame hr (by simp [(h.host t st i).mp hheld]) (by simp)
  returnedOnce := hr ▸ h.returnedOnce

end

section

variable (h : s.Tokens tok) (hheld : s.hosts t = some (st, i))
  (hq : s'.syscallQueue = s.syscallQueue) (hh : s'.hosts = update s.hosts t none)

include h hheld hq hh

theorem Tokens.drop (hr : s'.returnQueue = s.returnQueue) : s'.Tokens (update tok i .absent) where
  queued := h.queued_frame hq (by simp [(h.host t st i).mp hheld]) (by simp)
  queuedOnce := hq ▸ h.queuedOnce
  host := h.host_leave hheld hh (by simp)
  returned := h.returned_frame hr (by simp [(h.host t st i).mp hheld]) (by simp)
  returnedOnce := hr ▸ h.returnedOnce

theorem Tokens.push (hr : s'.returnQueue = s.returnQueue ++ [i]) :
    s'.Tokens (update tok i .returned) where
  queued := h.queued_frame hq (by simp [(h.host t st i).mp hheld]) (by simp)
  queuedOnce := hq ▸ h.queuedOnce
  host := h.host_leave hheld hh (by simp)
  returned := by
    intro j
    have := h.returned j
    have := h.host t st i
    grind
  returnedOnce := by
    rw [hr]
    have := h.returned i
    have := h.host t st i
    simp only [List.nodup_append, h.returnedOnce]
    grind

end

theorem Tokens.pop (h : s.Tokens tok) {rest : List Nat} (hr : s.returnQueue = i :: rest)
    (hr' : s'.returnQueue = rest) (hq : s'.syscallQueue = s.syscallQueue)
    (hh : s'.hosts = s.hosts) :
    s'.Tokens (update tok i .absent) where
  queued := by
    have hi : tok i = .returned := (h.returned i).mp (by simp [hr])
    exact h.queued_frame hq (by simp [hi]) (by simp)
  queuedOnce := hq ▸ h.queuedOnce
  host := by
    have hi : tok i = .returned := (h.returned i).mp (by simp [hr])
    exact h.host_frame hh (by simp [hi]) (by simp)
  returned := by
    intro j
    have := h.returned j
    have := h.returnedOnce
    grind
  returnedOnce := by
    have := h.returnedOnce
    grind

theorem Tokens.congr (h : s.Tokens tok) (hq : s'.syscallQueue = s.syscallQueue)
    (hh : s'.hosts = s.hosts) (hr : s'.returnQueue = s.returnQueue) : s'.Tokens tok := by
  constructor
  · exact hq ▸ h.queued
  · exact hq ▸ h.queuedOnce
  · exact hh ▸ h.host
  · exact hr ▸ h.returned
  · exact hr ▸ h.returnedOnce

def InFlight (s : HostCallSys) (i : Nat) : Prop :=
  i ∈ s.syscallQueue ∨ i ∈ s.returnQueue ∨ ∃ h st, s.hosts h = some (st, i)

theorem Tokens.token_ne_absent (h : s.Tokens tok) (hi : s.InFlight i) : tok i ≠ .absent := by
  rcases hi with hi | hi | ⟨t, st, hi⟩
  · simp [(h.queued i).mp hi]
  · simp [(h.returned i).mp hi]
  · simp [(h.host t st i).mp hi]

end HostCallSys
end RktIo.Host
