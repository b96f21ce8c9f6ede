import RktIo.Sched.StateWord

/-!
# Host I/O of the virtio devices (`lkl/disk.c`, `lkl/virtio_net.c`)

The disk and network back ends pass their requests on to the host. While the lthread that
makes such a host call waits, other lthreads work on its state word. What the host answers
and what the others do at each host call of a function is a list of `HostAnswer`, which the
function consumes; a function whose list ends too early has not returned.

Around its host calls a function remembers the state word, sets `LT_ST_PINNED` if the device
is to wait for its I/O, and writes the word back.
-/

namespace RktIo.Lkl

open Sched

inductive RwFn where
  | pread64
  | pwrite64
  deriving Repr, DecidableEq

inductive HostSyscall where
  | rw (fn : RwFn) (fd : BitVec 32) (addr : BitVec 64) (len : BitVec 32) (off : BitVec 64)
  | writev (fd : BitVec 32) (iov : BitVec 64) (cnt : BitVec 32)
  | readv (fd : BitVec 32) (iov : BitVec 64) (cnt : BitVec 32)
  | write (fd : BitVec 32) (count : Nat)
  | read (fd : BitVec 32) (count : Nat)
  | poll (fd : BitVec 32) (events : BitVec 16) (pipe : BitVec 32) (pipeEvents : BitVec 16)
  deriving Repr, DecidableEq

/-- What happens at a host call: the value it returns, the `revents` that `poll` stores, and
what other lthreads do to the caller's state word meanwhile. -/
structure HostAnswer where
  retVal : BitVec 64
  revents : BitVec 16 := 0
  pipeRevents : BitVec 16 := 0
  ops : List LtOp := []
  deriving Repr, DecidableEq

def HostAnswer.ret (a : HostAnswer) : BitVec 32 := a.retVal.setWidth 32

/-- The calling lthread's state word, and what it has done so far: its host calls, and its
messages with the error number in each. -/
structure HostEnv where
  state : LtState
  calls : List HostSyscall := []
  stderr : List (String × Int) := []
  deriving Repr, DecidableEq

def HostEnv.fprintf (env : HostEnv) (text : String) (errno : Int) : HostEnv :=
  { env with stderr := env.stderr ++ [(text, errno)] }

abbrev Returned (α : Type) := α × HostEnv × List HostAnswer

/-- `threadswitch`: the lthread yields until the host has answered, or waits for the answer if
it is pinned. `_lthread_resume` does not resume a cancelled lthread. -/
def HostEnv.hostCall (env : HostEnv) (alwaysSync : Bool) (call : HostSyscall) (a : HostAnswer) :
    Option HostEnv := do
  let state ← a.ops.foldlM (fun w op => op.step w) env.state
  if alwaysSync || env.state.test .pinned || !state.test .cancelled then
    some { env with state := state, calls := env.calls ++ [call] }
  else none

def oneCall (alwaysSync : Bool) (call : HostSyscall) (env : HostEnv) :
    List HostAnswer → Option (Returned HostAnswer)
  | [] => none
  | a :: rest => do
    let env ← env.hostCall alwaysSync call a
    return (a, env, rest)

def EINTR : BitVec 32 := 4
def EAGAIN : BitVec 32 := 11

def retryEintr (alwaysSync : Bool) (call : HostSyscall) :
    HostEnv → List HostAnswer → Option (Returned HostAnswer)
  | _, [] => none
  | env, a :: rest => do
    let env ← env.hostCall alwaysSync call a
    if a.ret = -EINTR then retryEintr alwaysSync call env rest else return (a, env, rest)

def HostEnv.pin (env : HostEnv) (waitOnIo : Bool) : HostEnv :=
  if waitOnIo then { env with state := env.state.set .pinned } else env

/-! ## The disk -/

structure EnclaveDiskConfig where
  fd : BitVec 32
  waitOnIo : Bool
  deriving Repr, DecidableEq

def getDiskConfig (disks : List EnclaveDiskConfig) (fd : BitVec 32) : Option EnclaveDiskConfig :=
  disks.find? (fun d => d.fd == fd)

structure Iovec where
  base : BitVec 64
  len : BitVec 64
  deriving Repr, DecidableEq

structure LklBlkReq where
  sector : BitVec 64
  buf : List Iovec
  deriving Repr, DecidableEq

/-- How the inner loop of `do_plain_rw` ends: by the `return`, or with the buffer done. -/
inductive RwLoop where
  | stopped (ret : BitVec 32)
  | finished (ret : BitVec 32) (off : BitVec 64)
  deriving Repr, DecidableEq

def rwLoop (alwaysSync : Bool) (fn : RwFn) (fd : BitVec 32) (addr : BitVec 64) (len : BitVec 32)
    (off : BitVec 64) (env : HostEnv) : List HostAnswer → Option (Returned RwLoop)
  | [] => none
  | a :: rest => do
    let env ← env.hostCall alwaysSync (.rw fn fd addr len off) a
    if a.ret.toInt ≤ 0 then return (.stopped a.ret, env, rest)
    let addr := addr + a.ret.signExtend 64
    let len := len - a.ret
    let off := off + a.ret.signExtend 64
    if 0 < len.toInt then rwLoop alwaysSync fn fd addr len off env rest
    else return (.finished a.ret off, env, rest)

def doPlainRwLoop (alwaysSync : Bool) (disks : List EnclaveDiskConfig) (fn : RwFn)
    (fd : BitVec 32) (ret : BitVec 32) (off : BitVec 64) (env : HostEnv)
    (script : List HostAnswer) : List Iovec → Option (Returned (BitVec 32))
  | [] => some (ret, env, script)
  | b :: buf => do
    let ltOldState := env.state
    let waitOnIo := (getDiskConfig disks fd).any (fun d => d.waitOnIo)
    let (res, env, script) ← rwLoop alwaysSync fn fd b.base (b.len.setWidth 32) off
      (env.pin waitOnIo) script
    match res with
    | .stopped ret => return (ret, { env with state := ltOldState }, script)
    | .finished ret off =>
      doPlainRwLoop alwaysSync disks fn fd ret off { env with state := ltOldState } script buf

def doPlainRw (alwaysSync : Bool) (disks : List EnclaveDiskConfig) (fn : RwFn) (fd : BitVec 32)
    (req : LklBlkReq) (env : HostEnv) (script : List HostAnswer) : Option (Returned (BitVec 32)) :=
  doPlainRwLoop alwaysSync disks fn fd 0 (req.sector * 512) env script req.buf

/-! ## The network device -/

structure LklNetdevFd where
  fd : BitVec 32
  pollTx : Bool
  pollRx : Bool
  pipe0 : BitVec 32
  pipe1 : BitVec 32
  waitOnIo : Bool
  deriving Repr, DecidableEq

def pinnedCall (waitOnIo : Bool) (call : HostEnv → List HostAnswer → Option (Returned HostAnswer))
    (env : HostEnv) (script : List HostAnswer) : Option (Returned HostAnswer) := do
  let ltOldState := env.state
  let (a, env, script) ← call (env.pin waitOnIo) script
  return (a, { env with state := ltOldState }, script)

def netTransfer (alwaysSync : Bool) (nd : LklNetdevFd) (call : HostSyscall) (failed : String)
    (wantPoll : LklNetdevFd → LklNetdevFd) (pipeFailed : BitVec 32 → Bool) (env : HostEnv)
    (script : List HostAnswer) : Option (Returned (BitVec 32 × LklNetdevFd)) := do
  let (a, env, script) ← pinnedCall nd.waitOnIo (retryEintr alwaysSync call) env script
  if a.ret.toInt < 0 then
    if a.ret ≠ -EAGAIN then
      return ((a.ret, nd), env.fprintf failed (-a.ret).toInt, script)
    else
      let nd := wantPoll nd
      let (p, env, script) ←
        pinnedCall nd.waitOnIo (oneCall alwaysSync (.write nd.pipe1 1)) env script
      let env := if pipeFailed p.ret
        then env.fprintf "[    SGX-LKL   ] Write to virtio net fd pipe failed: %s" (-p.ret).toInt
        else env
      return ((a.ret, nd), env, script)
  else return ((a.ret, nd), env, script)

def sgxlklFdNetTx (alwaysSync : Bool) (nd : LklNetdevFd) (iov : BitVec 64) (cnt : BitVec 32) :
    HostEnv → List HostAnswer → Option (Returned (BitVec 32 × LklNetdevFd)) :=
  netTransfer alwaysSync nd (.writev nd.fd iov cnt)
    "[    SGX-LKL   ] Write to virtio net fd failed: %s" (fun nd => { nd with pollTx := true })
    (fun pipeRet => pipeRet.toInt ≤ 0)

def sgxlklFdNetRx (alwaysSync : Bool) (nd : LklNetdevFd) (iov : BitVec 64) (cnt : BitVec 32) :
    HostEnv → List HostAnswer → Option (Returned (BitVec 32 × LklNetdevFd)) :=
  netTransfer alwaysSync nd (.readv nd.fd iov cnt)
    "[    SGX-LKL   ] Read from virtio net fd failed: %s" (fun nd => { nd with pollRx := true })
    (fun pipeRet => pipeRet.toInt < 0)

def POLLIN : BitVec 16 := 0x001
def POLLPRI : BitVec 16 := 0x002
def POLLOUT : BitVec 16 := 0x004
def POLLHUP : BitVec 16 := 0x010
def POLLNVAL : BitVec 16 := 0x020
def PIPE_BUF : Nat := 4096

/-- The flags `LKL_DEV_NET_POLL_HUP`, `_RX` and `_TX` that `sgxlkl_fd_net_poll` returns. -/
structure NetPoll where
  hup : Bool := false
  rx : Bool := false
  tx : Bool := false
  deriving Repr, DecidableEq

def netPollRead (alwaysSync : Bool) (nd : LklNetdevFd) :
    HostEnv → List HostAnswer → Option (Returned HostAnswer) :=
  pinnedCall nd.waitOnIo (oneCall alwaysSync (.read nd.pipe0 PIPE_BUF))

def netPollReady (nd : LklNetdevFd) (revents : BitVec 16) : NetPoll × LklNetdevFd :=
  let rx := revents &&& (POLLIN ||| POLLPRI) != 0
  let tx := revents &&& POLLOUT != 0
  ({ rx := rx, tx := tx }, { nd with pollRx := nd.pollRx && !rx, pollTx := nd.pollTx && !tx })

def sgxlklFdNetPoll (alwaysSync : Bool) (nd : LklNetdevFd) (env : HostEnv)
    (script : List HostAnswer) : Option (Returned (NetPoll × LklNetdevFd)) := do
  let events := (if nd.pollRx then POLLIN ||| POLLPRI else 0) ||| (if nd.pollTx then POLLOUT else 0)
  let (a, env, script) ←
    retryEintr alwaysSync (.poll nd.fd events nd.pipe0 POLLIN) env script
  if a.ret.toInt < 0 then
    return (({}, nd),
      env.fprintf "[    SGX-LKL   ] Poll from virtio net fd failed: %s" (-a.ret).toInt, script)
  else if a.pipeRevents &&& (POLLHUP ||| POLLNVAL) ≠ 0 then
    return (({ hup := true }, nd), env, script)
  else if a.pipeRevents &&& POLLIN ≠ 0 then
    let (p, env, script) ← netPollRead alwaysSync nd env script
    if p.ret = 0 then return (({ hup := true }, nd), env, script)
    else
      let env := if p.ret.toInt < 0
        then env.fprintf "[    SGX-LKL   ] Read from virtio net fd failed: %s" (-p.ret).toInt
        else env
      return (netPollReady nd a.revents, env, script)
  else return (netPollReady nd a.revents, env, script)

end RktIo.Lkl
