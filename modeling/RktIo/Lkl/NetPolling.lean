import RktIo.Lkl.HostIo

/-!
# Polling a network device, step by step

Transmitting, receiving and polling on the descriptor of a network device run side by side. A
transfer that would block sets `poll_tx` or `poll_rx` and writes a byte to the control pipe; the
poll routine reads the two variables, blocks on the descriptor and the pipe, takes the bytes out of
the pipe, clears the variables of what is ready and returns it. Nothing is locked.

Each read or write of a variable and each host call is one `step` of the device; a label says which
routine moves and what the host answers. Pinning the lthread during a host call is the subject of
`Pinning` and left out.
-/

namespace RktIo.Lkl.NetPolling

/-! ## The model -/

inductive Dir where
  | tx
  | rx
deriving DecidableEq, Repr

/-- Where `sgxlkl_fd_net_tx` or `sgxlkl_fd_net_rx` is: what it does next. -/
inductive Routine where
  | idle
  | transfer
  | setFlag
  | notify
  | returning (ret : BitVec 32)
deriving DecidableEq, Repr

/-- Where `sgxlkl_fd_net_poll` is: what it does next, and the locals that it needs for it. -/
inductive Poll where
  | idle
  | readRx
  | readTx (events : BitVec 16)
  | blocked (events : BitVec 16)
  | drain (revents : BitVec 16)
  | clearRx (revents : BitVec 16)
  | clearTx (revents : BitVec 16) (ret : NetPoll)
  | returning (ret : NetPoll)
deriving DecidableEq, Repr

/-- What has been seen, for the statements only: a transfer that ended with `-EAGAIN`, and what
poll returned. -/
inductive Note where
  | again (dir : Dir)
  | polled (ret : NetPoll)
deriving DecidableEq, Repr

/-- The device with the number of unread bytes of its pipe, its routines and what has been seen,
the latest first. -/
structure NetDev where
  nd : LklNetdevFd
  pipe : Nat := 0
  tx : Routine := .idle
  rx : Routine := .idle
  poll : Poll := .idle
  seen : List Note := []
  stderr : List (String × Int) := []
deriving DecidableEq, Repr

def NetDev.flag (s : NetDev) : Dir → Bool
  | .tx => s.nd.pollTx
  | .rx => s.nd.pollRx

def NetDev.setFlag (s : NetDev) : Dir → NetDev
  | .tx => { s with nd.pollTx := true }
  | .rx => { s with nd.pollRx := true }

def NetDev.routine (s : NetDev) : Dir → Routine
  | .tx => s.tx
  | .rx => s.rx

def NetDev.setRoutine (s : NetDev) : Dir → Routine → NetDev
  | .tx, routine => { s with tx := routine }
  | .rx, routine => { s with rx := routine }

def NetDev.note (s : NetDev) (n : Note) : NetDev := { s with seen := n :: s.seen }

def NetDev.writePipe (s : NetDev) (bytes : Nat) : NetDev := { s with pipe := s.pipe + bytes }

def NetDev.fprintf (s : NetDev) (text : String) (errno : Int) : NetDev :=
  { s with stderr := s.stderr ++ [(text, errno)] }

/-- What `sgxlkl_fd_net_tx` and `sgxlkl_fd_net_rx` do not share: the variable that they set, the
message of a failed transfer, and when the answer of the pipe is a failure. -/
structure Transfer where
  dir : Dir
  failed : String
  pipeFailed : BitVec 32 → Bool

def transferStep (t : Transfer) (a : HostAnswer) (s : NetDev) : Option NetDev :=
  match s.routine t.dir with
  | .idle => none
  | .transfer =>
    if a.ret = -EINTR then some s
    else if a.ret.toInt < 0 then
      if a.ret ≠ -EAGAIN then
        some ((s.fprintf t.failed (-a.ret).toInt).setRoutine t.dir (.returning a.ret))
      else some ((s.note (.again t.dir)).setRoutine t.dir .setFlag)
    else some (s.setRoutine t.dir (.returning a.ret))
  | .setFlag => some ((s.setFlag t.dir).setRoutine t.dir .notify)
  | .notify =>
    let written := s.writePipe a.ret.toInt.toNat
    let reported :=
      if t.pipeFailed a.ret then
        written.fprintf "[    SGX-LKL   ] Write to virtio net fd pipe failed: %s" (-a.ret).toInt
      else written
    some (reported.setRoutine t.dir (.returning (-EAGAIN)))
  | .returning _ => some (s.setRoutine t.dir .idle)

def fdNetTx : Transfer where
  dir := .tx
  failed := "[    SGX-LKL   ] Write to virtio net fd failed: %s"
  pipeFailed := fun pipeRet => pipeRet.toInt ≤ 0

def fdNetRx : Transfer where
  dir := .rx
  failed := "[    SGX-LKL   ] Read from virtio net fd failed: %s"
  pipeFailed := fun pipeRet => pipeRet.toInt < 0

def transferOf : Dir → Transfer
  | .tx => fdNetTx
  | .rx => fdNetRx

def pollStep (a : HostAnswer) (s : NetDev) : Option NetDev :=
  match s.poll with
  | .idle => none
  | .readRx => some { s with poll := .readTx (if s.nd.pollRx then POLLIN ||| POLLPRI else 0) }
  | .readTx events =>
    some { s with poll := .blocked (if s.nd.pollTx then events ||| POLLOUT else events) }
  | .blocked _ =>
    if a.ret = -EINTR then some s
    else if a.ret.toInt < 0 then
      some { s.fprintf "[    SGX-LKL   ] Poll from virtio net fd failed: %s" (-a.ret).toInt with
        poll := .returning {} }
    else if a.pipeRevents &&& (POLLHUP ||| POLLNVAL) ≠ 0 then
      some { s with poll := .returning { hup := true } }
    else if a.pipeRevents &&& POLLIN ≠ 0 then some { s with poll := .drain a.revents }
    else some { s with poll := .clearRx a.revents }
  | .drain revents =>
    let drained := { s with pipe := s.pipe - a.ret.toInt.toNat }
    if a.ret = 0 then some { drained with poll := .returning { hup := true } }
    else if a.ret.toInt < 0 then
      some { drained.fprintf "[    SGX-LKL   ] Read from virtio net fd failed: %s" (-a.ret).toInt
        with poll := .clearRx revents }
    else some { drained with poll := .clearRx revents }
  | .clearRx revents =>
    if revents &&& (POLLIN ||| POLLPRI) ≠ 0 then
      some { s with nd.pollRx := false, poll := .clearTx revents { rx := true } }
    else some { s with poll := .clearTx revents {} }
  | .clearTx revents ret =>
    if revents &&& POLLOUT ≠ 0 then
      some { s with nd.pollTx := false, poll := .returning { ret with tx := true } }
    else some { s with poll := .returning ret }
  | .returning ret => some { s with poll := .idle, seen := .polled ret :: s.seen }

inductive Step where
  | call (dir : Dir)
  | transfer (dir : Dir) (a : HostAnswer)
  | callPoll
  | poll (a : HostAnswer)
deriving DecidableEq, Repr

def step (s : NetDev) : Step → Option NetDev
  | .call dir => if s.routine dir = .idle then some (s.setRoutine dir .transfer) else none
  | .transfer dir a => transferStep (transferOf dir) a s
  | .callPoll => if s.poll = .idle then some { s with poll := .readRx } else none
  | .poll a => pollStep a s

section Fields

/-! The fields after an update. -/

variable (s : NetDev) (d dir : Dir) (r : Routine) (text : String) (errno : Int)

@[simp]
theorem dir_transferOf : (transferOf d).dir = d := by
  cases d <;> rfl

@[simp]
theorem routine_setRoutine :
    (s.setRoutine d r).routine dir = if dir = d then r else s.routine dir := by
  cases d <;> cases dir <;> rfl

@[simp]
theorem flag_setFlag : (s.setFlag d).flag dir = if dir = d then true else s.flag dir := by
  cases d <;> cases dir <;> rfl

@[simp]
theorem flag_setRoutine : (s.setRoutine d r).flag dir = s.flag dir := by
  cases d <;> cases dir <;> rfl

@[simp]
theorem routine_setFlag : (s.setFlag d).routine dir = s.routine dir := by
  cases d <;> cases dir <;> rfl

@[simp]
theorem setRoutine_rest : (s.setRoutine d r).nd = s.nd ∧ (s.setRoutine d r).pipe = s.pipe
    ∧ (s.setRoutine d r).poll = s.poll ∧ (s.setRoutine d r).seen = s.seen := by
  cases d <;> exact ⟨rfl, rfl, rfl, rfl⟩

@[simp]
theorem setFlag_rest : (s.setFlag d).pipe = s.pipe ∧ (s.setFlag d).poll = s.poll
    ∧ (s.setFlag d).seen = s.seen := by
  cases d <;> exact ⟨rfl, rfl, rfl⟩

@[simp]
theorem flag_note (n : Note) : (s.note n).flag dir = s.flag dir := by
  cases dir <;> rfl

@[simp]
theorem routine_note (n : Note) : (s.note n).routine dir = s.routine dir := by
  cases dir <;> rfl

@[simp]
theorem note_rest (n : Note) : (s.note n).nd = s.nd ∧ (s.note n).pipe = s.pipe
    ∧ (s.note n).poll = s.poll ∧ (s.note n).seen = n :: s.seen := ⟨rfl, rfl, rfl, rfl⟩

@[simp]
theorem flag_fprintf : (s.fprintf text errno).flag dir = s.flag dir := by
  cases dir <;> rfl

@[simp]
theorem routine_fprintf : (s.fprintf text errno).routine dir = s.routine dir := by
  cases dir <;> rfl

@[simp]
theorem fprintf_rest : (s.fprintf text errno).nd = s.nd ∧ (s.fprintf text errno).pipe = s.pipe
    ∧ (s.fprintf text errno).poll = s.poll ∧ (s.fprintf text errno).seen = s.seen :=
  ⟨rfl, rfl, rfl, rfl⟩

@[simp]
theorem flag_writePipe (bytes : Nat) : (s.writePipe bytes).flag dir = s.flag dir := by
  cases dir <;> rfl

@[simp]
theorem routine_writePipe (bytes : Nat) : (s.writePipe bytes).routine dir = s.routine dir := by
  cases dir <;> rfl

@[simp]
theorem writePipe_rest (bytes : Nat) : (s.writePipe bytes).nd = s.nd
    ∧ (s.writePipe bytes).pipe = s.pipe + bytes ∧ (s.writePipe bytes).poll = s.poll
    ∧ (s.writePipe bytes).seen = s.seen :=
  ⟨rfl, rfl, rfl, rfl⟩

end Fields

end RktIo.Lkl.NetPolling
