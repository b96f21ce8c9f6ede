import RktIo.Lkl.HostIo

/-!
# Temporary pinning (`do_plain_rw`, `sgxlkl_fd_net_tx`, `sgxlkl_fd_net_rx`, `sgxlkl_fd_net_poll`)

To pin an lthread for the time of a host call, the device functions keep the whole state word
and write it back behind the call. Whatever other lthreads did to the word meanwhile is undone.
-/

namespace RktIo.Lkl

open Sched

inductive IoFunction where
  | doPlainRw (disks : List EnclaveDiskConfig) (fn : RwFn) (fd : BitVec 32) (req : LklBlkReq)
  | sgxlklFdNetTx (nd : LklNetdevFd) (iov : BitVec 64) (cnt : BitVec 32)
  | sgxlklFdNetRx (nd : LklNetdevFd) (iov : BitVec 64) (cnt : BitVec 32)
  | netPollRead (nd : LklNetdevFd)
  deriving Repr, DecidableEq

def IoFunction.run (alwaysSync : Bool) (env : HostEnv) (script : List HostAnswer) :
    IoFunction → Option (Returned (BitVec 32))
  | .doPlainRw disks fn fd req => Lkl.doPlainRw alwaysSync disks fn fd req env script
  | .sgxlklFdNetTx nd iov cnt =>
    (Lkl.sgxlklFdNetTx alwaysSync nd iov cnt env script).map (fun r => (r.1.1, r.2))
  | .sgxlklFdNetRx nd iov cnt =>
    (Lkl.sgxlklFdNetRx alwaysSync nd iov cnt env script).map (fun r => (r.1.1, r.2))
  | .netPollRead nd => (Lkl.netPollRead alwaysSync nd env script).map (fun r => (r.1.ret, r.2))

/-! ## The state word is restored -/

variable {alwaysSync : Bool} {env env' : HostEnv} {script rest : List HostAnswer}

theorem pinnedCall_state {waitOnIo : Bool}
    {call : HostEnv → List HostAnswer → Option (Returned HostAnswer)} {a : HostAnswer}
    (h : pinnedCall waitOnIo call env script = some (a, env', rest)) : env'.state = env.state := by
  obtain ⟨⟨a, env₁, rest₁⟩, -, hret⟩ := Option.bind_eq_some_iff.mp h
  cases hret
  rfl

theorem doPlainRwLoop_state {disks : List EnclaveDiskConfig} {fn : RwFn} {fd ret ret' : BitVec 32}
    {off : BitVec 64} (buf : List Iovec)
    (h : doPlainRwLoop alwaysSync disks fn fd ret off env script buf = some (ret', env', rest)) :
    env'.state = env.state := by
  induction buf generalizing env script ret off with
  | nil =>
    cases h
    rfl
  | cons b buf ih =>
    obtain ⟨⟨res, env₁, script₁⟩, -, hrest⟩ := Option.bind_eq_some_iff.mp h
    cases res with
    | stopped ret₁ =>
      cases hrest
      rfl
    | finished ret₁ off₁ =>
      have hend := ih hrest
      exact hend

theorem netTransfer_state {nd : LklNetdevFd} {call : HostSyscall} {failed : String}
    {wantPoll : LklNetdevFd → LklNetdevFd} {pipeFailed : BitVec 32 → Bool}
    {r : BitVec 32 × LklNetdevFd}
    (h : netTransfer alwaysSync nd call failed wantPoll pipeFailed env script =
      some (r, env', rest)) : env'.state = env.state := by
  obtain ⟨⟨a, env₁, script₁⟩, hcall, hrest⟩ := Option.bind_eq_some_iff.mp h
  have hstate : env₁.state = env.state := pinnedCall_state hcall
  dsimp only at hrest
  split at hrest
  · split at hrest
    · cases hrest
      exact hstate
    · obtain ⟨⟨p, env₂, script₂⟩, hpipe, hret⟩ := Option.bind_eq_some_iff.mp hrest
      have hstate₂ : env₂.state = env₁.state := pinnedCall_state hpipe
      cases hret
      split <;> exact hstate₂.trans hstate
  · cases hrest
    exact hstate

theorem IoFunction.run_state {f : IoFunction} {ret : BitVec 32}
    (h : f.run alwaysSync env script = some (ret, env', rest)) : env'.state = env.state := by
  cases f with
  | doPlainRw disks fn fd req => exact doPlainRwLoop_state req.buf h
  | sgxlklFdNetTx nd iov cnt | sgxlklFdNetRx nd iov cnt =>
    obtain ⟨⟨r, env₁, rest₁⟩, hr, hret⟩ := Option.map_eq_some_iff.mp h
    cases hret
    exact netTransfer_state hr
  | netPollRead nd =>
    obtain ⟨⟨r, env₁, rest₁⟩, hr, hret⟩ := Option.map_eq_some_iff.mp h
    cases hret
    exact pinnedCall_state hr

/-! ## What the others did -/

def othersOps (script : List HostAnswer) : List LtOp := script.flatMap (fun a => a.ops)

/-- Of the word `w` at the entry, `w'` has `LT_ST_PINNED`; the flags of the other operations are
those that the operations left. -/
def KeepsOthers (w w' : LtState) (ops : List LtOp) : Prop :=
  (∀ b ∈ [LtSt.detach, .cancelled, .busy], w'.test b = (opsResult w ops).test b) ∧
    w'.test .pinned = w.test .pinned

instance (w w' : LtState) (ops : List LtOp) : Decidable (KeepsOthers w w' ops) :=
  inferInstanceAs (Decidable (_ ∧ _))

/-- No operation changed a flag, or the change was taken back: the lthread was detached or
cancelled before, its cancellation is disabled, and the last lock or unlock left
`LT_ST_BUSY` as it was. -/
structure NothingToKeep (w : LtState) (ops : List LtOp) : Prop where
  detach : .detach2 ∈ ops → w.test .detach = true
  cancel : .cancel ∈ ops → w.test .cancelled = true ∨ w.test .cancelState = true
  busy : ∀ b, (ops.filterMap LtOp.busy?).getLast? = some b → w.test .busy = b

theorem keepsOthers_self_iff (w : LtState) (ops : List LtOp) :
    KeepsOthers w w ops ↔ NothingToKeep w ops := by
  have hdetach : w.test .detach = (opsResult w ops).test .detach ↔
      (.detach2 ∈ ops → w.test .detach = true) := by
    rw [opsResult_test_detach]
    cases w.test .detach <;> simp
  have hcancel : w.test .cancelled = (opsResult w ops).test .cancelled ↔
      (.cancel ∈ ops → w.test .cancelled = true ∨ w.test .cancelState = true) := by
    rw [opsResult_test_cancelled]
    cases w.test .cancelled <;> simp
  have hbusy : w.test .busy = (opsResult w ops).test .busy ↔
      ∀ b, (ops.filterMap LtOp.busy?).getLast? = some b → w.test .busy = b := by
    rw [opsResult_test_busy]
    cases (ops.filterMap LtOp.busy?).getLast? <;> simp
  simp only [KeepsOthers, List.forall_mem_cons, hdetach, hcancel, hbusy, List.not_mem_nil,
    false_imp_iff, implies_true, and_true]
  exact ⟨fun ⟨hd, hc, hb⟩ => ⟨hd, hc, hb⟩, fun h => ⟨h.detach, h.cancel, h.busy⟩⟩

/-- **Pinning keeps what others did to the state word exactly when there is nothing to keep.** -/
theorem pinning_keepsOthers_iff {alwaysSync : Bool} {env env' : HostEnv}
    {script : List HostAnswer} {f : IoFunction} {ret : BitVec 32}
    (h : f.run alwaysSync env script = some (ret, env', [])) :
    KeepsOthers env.state env'.state (othersOps script) ↔
      NothingToKeep env.state (othersOps script) := by
  rw [IoFunction.run_state h]
  exact keepsOthers_self_iff env.state (othersOps script)

def asyncDisk : EnclaveDiskConfig := { fd := 3, waitOnIo := false }

def syncNet : LklNetdevFd :=
  { fd := 4, pollTx := false, pollRx := false, pipe0 := 5, pipe1 := 6, waitOnIo := true }

def readyEnv : HostEnv := { state := LtState.set 0 .ready }

def busyEnv : HostEnv := { state := readyEnv.state.set .busy }

def readSector : IoFunction :=
  .doPlainRw [asyncDisk] .pread64 3 { sector := 1, buf := [{ base := 0x1000, len := 512 }] }

def lockedRead : List HostAnswer :=
  [{ retVal := 256, ops := [.lock] }, { retVal := 256, ops := [.unlock] }]

def lockedReadEnd : HostEnv :=
  { readyEnv with calls := [.rw .pread64 3 0x1000 512 512, .rw .pread64 3 0x1100 256 768] }

theorem pinning_keepsOthers_lockedRead :
    readSector.run false readyEnv lockedRead = some (256, lockedReadEnd, []) ∧
      KeepsOthers readyEnv.state lockedReadEnd.state (othersOps lockedRead) := by
  have hrun : readSector.run false readyEnv lockedRead = some (256, lockedReadEnd, []) := by
    decide
  exact ⟨hrun, (pinning_keepsOthers_iff hrun).mpr ⟨by decide, by decide, by decide⟩⟩

/-- **What others did to the state word is lost**: an asynchronous read loses the detach, a
synchronous send the cancellation; a receive leaves the caller busy that another lthread has
unlocked, and emptying the pipe loses a lock. -/
theorem pinning_loses_others :
    (∃ env', readSector.run false readyEnv [{ retVal := 512, ops := [.detach2] }]
        = some (512, env', []) ∧ env'.state.test .detach = false ∧
        ¬ KeepsOthers readyEnv.state env'.state [.detach2]) ∧
    (∃ env', (IoFunction.sgxlklFdNetTx syncNet 0x2000 1).run false readyEnv
        [{ retVal := 60, ops := [.cancel] }] = some (60, env', []) ∧
        env'.state.test .cancelled = false ∧
        ¬ KeepsOthers readyEnv.state env'.state [.cancel]) ∧
    (∃ env', (IoFunction.sgxlklFdNetRx syncNet 0x2000 1).run false busyEnv
        [{ retVal := 60, ops := [.unlock] }] = some (60, env', []) ∧
        env'.state.test .busy = true ∧
        ¬ KeepsOthers busyEnv.state env'.state [.unlock]) ∧
    ∃ env', (IoFunction.netPollRead syncNet).run false readyEnv
        [{ retVal := 1, ops := [.lock] }] = some (1, env', []) ∧
        env'.state.test .busy = false ∧
        ¬ KeepsOthers readyEnv.state env'.state [.lock] :=
  ⟨⟨_, rfl, rfl, by decide⟩, ⟨_, rfl, rfl, by decide⟩, ⟨_, rfl, rfl, by decide⟩,
    ⟨_, rfl, rfl, by decide⟩⟩

end RktIo.Lkl
