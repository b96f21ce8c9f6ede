import RktIo.Lib.SeqNum
import RktIo.Lib.Transition

/-!
# The bounded MPMC queue (`shared/mpmc_queue.c`)

Any number of threads call `mpmc_enqueue` and `mpmc_dequeue` on one queue. Each load of a
position, load of a sequence number, compare-and-swap, access to the data of a cell and store
of a sequence number is one step; the compare-and-swap is the weak one and may fail for no
reason. Positions and sequence numbers are words of 64 bits.

The state also keeps a record of the run, which no step reads: the values in the order in
which their positions were claimed, what each claimed position was dequeued as, and which
positions have been published and released. A thread carries, next to the word that it has
loaded, the number of the position it stands for.
-/

namespace RktIo.Queue

variable {α : Type}

/-- `struct cell_t`. `unread` records that the cell has been published, and not read since. -/
structure Cell (α : Type) where
  seq : BitVec 64
  data : α
  unread : Bool := false

structure Mpmcq (α : Type) where
  buffer : Nat → Cell α
  bufferMask : BitVec 64
  enqueuePos : BitVec 64
  dequeuePos : BitVec 64

def cellSize : BitVec 64 := 16

def newmpmcq (bufferSize : BitVec 64) (buffer : Nat → α) : Option (Mpmcq α) :=
  let size := bufferSize / cellSize
  if 2 ≤ size ∧ size &&& (size - 1) = 0 then
    some
      { buffer := fun i => { seq := BitVec.ofNat 64 i, data := buffer i }
        bufferMask := size - 1
        enqueuePos := 0
        dequeuePos := 0 }
  else none

def Mpmcq.index (q : Mpmcq α) (pos : BitVec 64) : Nat := (pos &&& q.bufferMask).toNat

def Mpmcq.cell (q : Mpmcq α) (pos : BitVec 64) : Cell α := q.buffer (q.index pos)

def Mpmcq.setCell (q : Mpmcq α) (pos : BitVec 64) (c : Cell α) : Mpmcq α :=
  { q with buffer := Function.update q.buffer (q.index pos) c }

/-! ## The threads -/

/-- What a thread does next. `pos` is the word it has loaded, `n` the position that stands for. -/
inductive MpmcPc (α : Type) where
  | idle
  /-- `pos = __atomic_load_n(&q->enqueue_pos)` -/
  | enqLoad (x : α)
  /-- `seq = __atomic_load_n(&cell->seq)`, and the test of `dif` -/
  | enqSeq (x : α) (pos : BitVec 64) (n : Nat)
  /-- `__atomic_compare_exchange_n(&q->enqueue_pos, &exp, pos + 1)` -/
  | enqCas (x : α) (pos : BitVec 64) (n : Nat)
  /-- `cell->data = data` -/
  | enqStore (x : α) (pos : BitVec 64) (n : Nat)
  /-- `__atomic_store_n(&cell->seq, pos + 1)` -/
  | enqPublish (pos : BitVec 64) (n : Nat)
  /-- Returned 0; `vacant` records whether its cell had been released then. -/
  | enqFull (n : Nat) (vacant : Bool)
  /-- Returned 1. -/
  | enqDone (n : Nat)
  /-- `pos = __atomic_load_n(&q->dequeue_pos)` -/
  | deqLoad
  | deqSeq (pos : BitVec 64) (n : Nat)
  | deqCas (pos : BitVec 64) (n : Nat)
  /-- `*data = cell->data` -/
  | deqRead (pos : BitVec 64) (n : Nat)
  /-- `__atomic_store_n(&cell->seq, pos + q->buffer_mask + 1)` -/
  | deqRelease (x : α) (pos : BitVec 64) (n : Nat)
  /-- Returned 0; `published` records whether its cell had been published then. -/
  | deqEmpty (n : Nat) (published : Bool)
  /-- Returned 1. -/
  | deqDone (n : Nat) (x : α)

def MpmcPc.returned : MpmcPc α → Bool
  | .idle | .enqFull .. | .enqDone .. | .deqEmpty .. | .deqDone .. => true
  | _ => false

/-- `seenOps` is the number of positions that were claimed at the last step of the thread. -/
structure MpmcThread (α : Type) where
  pc : MpmcPc α
  seenOps : Nat

/-! ## The system -/

/-- The queue, the threads and the record of the run: `enqLog` and `deqLog` have an entry for
each claimed position, `returns` for each dequeue that has returned 1. `overwritten` records
that the data of a cell was stored over a value that had not been read. -/
structure MpmcSys (α : Type) where
  q : Mpmcq α
  threads : Nat → MpmcThread α
  enqLog : List α
  deqLog : List (Option α)
  published : Nat → Bool
  released : Nat → Bool
  returns : List (Nat × α)
  overwritten : Bool

namespace MpmcSys

def initial (q : Mpmcq α) : MpmcSys α where
  q := q
  threads := fun _ => ⟨.idle, 0⟩
  enqLog := []
  deqLog := []
  published := fun _ => false
  released := fun _ => false
  returns := []
  overwritten := false

def capacity (s : MpmcSys α) : Nat := s.q.bufferMask.toNat + 1

def ops (s : MpmcSys α) : Nat := s.enqLog.length + s.deqLog.length

def vacant (s : MpmcSys α) (n : Nat) : Bool :=
  decide (n < s.capacity) || s.released (n - s.capacity)

def goto (s : MpmcSys α) (t : Nat) (pc : MpmcPc α) : MpmcSys α :=
  { s with threads := Function.update s.threads t ⟨pc, s.ops⟩ }

def claimEnq (s : MpmcSys α) (x : α) (pos : BitVec 64) : MpmcSys α :=
  { s with q := { s.q with enqueuePos := pos + 1 }, enqLog := s.enqLog ++ [x] }

def storeData (s : MpmcSys α) (x : α) (pos : BitVec 64) : MpmcSys α :=
  { s with
    q := s.q.setCell pos { s.q.cell pos with data := x }
    overwritten := s.overwritten || (s.q.cell pos).unread }

def publish (s : MpmcSys α) (pos : BitVec 64) (n : Nat) : MpmcSys α :=
  { s with
    q := s.q.setCell pos { s.q.cell pos with seq := pos + 1, unread := true }
    published := Function.update s.published n true }

def claimDeq (s : MpmcSys α) (pos : BitVec 64) : MpmcSys α :=
  { s with q := { s.q with dequeuePos := pos + 1 }, deqLog := s.deqLog ++ [none] }

def readData (s : MpmcSys α) (pos : BitVec 64) (n : Nat) : MpmcSys α :=
  { s with
    q := s.q.setCell pos { s.q.cell pos with unread := false }
    deqLog := s.deqLog.set n (some (s.q.cell pos).data) }

def release (s : MpmcSys α) (x : α) (pos : BitVec 64) (n : Nat) : MpmcSys α :=
  { s with
    q := s.q.setCell pos { s.q.cell pos with seq := pos + s.q.bufferMask + 1 }
    released := Function.update s.released n true
    returns := s.returns ++ [(n, x)] }

def run (s : MpmcSys α) (t : Nat) : MpmcPc α → Option (MpmcSys α)
  | .enqLoad x => some (s.goto t (.enqSeq x s.q.enqueuePos s.enqLog.length))
  | .enqSeq x pos n =>
    let dif := ((s.q.cell pos).seq - pos).toInt
    if dif = 0 then some (s.goto t (.enqCas x pos n))
    else if dif < 0 then some (s.goto t (.enqFull n (s.vacant n)))
    else some (s.goto t (.enqLoad x))
  | .enqCas x pos n =>
    if s.q.enqueuePos = pos then
      some ((s.claimEnq x pos).goto t (.enqStore x pos s.enqLog.length))
    else some (s.goto t (.enqSeq x pos n))
  | .enqStore x pos n => some ((s.storeData x pos).goto t (.enqPublish pos n))
  | .enqPublish pos n => some ((s.publish pos n).goto t (.enqDone n))
  | .deqLoad => some (s.goto t (.deqSeq s.q.dequeuePos s.deqLog.length))
  | .deqSeq pos n =>
    let dif := ((s.q.cell pos).seq - (pos + 1)).toInt
    if dif = 0 then some (s.goto t (.deqCas pos n))
    else if dif < 0 then some (s.goto t (.deqEmpty n (s.published n)))
    else some (s.goto t .deqLoad)
  | .deqCas pos n =>
    if s.q.dequeuePos = pos then
      some ((s.claimDeq pos).goto t (.deqRead pos s.deqLog.length))
    else some (s.goto t (.deqSeq pos n))
  | .deqRead pos n =>
    some ((s.readData pos n).goto t (.deqRelease (s.q.cell pos).data pos n))
  | .deqRelease x pos n => some ((s.release x pos n).goto t (.deqDone n x))
  | .idle | .enqFull .. | .enqDone .. | .deqEmpty .. | .deqDone .. => none

end MpmcSys

inductive MpmcStep (α : Type) where
  | enqueue (t : Nat) (x : α)
  | dequeue (t : Nat)
  | run (t : Nat)
  /-- A weak compare-and-swap fails although the position is the expected one. -/
  | casFail (t : Nat)

def mpmcStep (s : MpmcSys α) : MpmcStep α → Option (MpmcSys α)
  | .enqueue t x => if (s.threads t).pc.returned then some (s.goto t (.enqLoad x)) else none
  | .dequeue t => if (s.threads t).pc.returned then some (s.goto t .deqLoad) else none
  | .run t => s.run t (s.threads t).pc
  | .casFail t =>
    match (s.threads t).pc with
    | .enqCas x pos n => some (s.goto t (.enqSeq x pos n))
    | .deqCas pos n => some (s.goto t (.deqSeq pos n))
    | _ => none

def NotOvertaken (s : MpmcSys α) : MpmcStep α → Prop
  | .run t | .casFail t => s.ops < (s.threads t).seenOps + 2 ^ 62
  | .enqueue .. | .dequeue .. => True

instance (s : MpmcSys α) (l : MpmcStep α) : Decidable (NotOvertaken s l) :=
  match l with
  | .run t | .casFail t => inferInstanceAs (Decidable (s.ops < (s.threads t).seenOps + 2 ^ 62))
  | .enqueue .. | .dequeue .. => inferInstanceAs (Decidable True)

end RktIo.Queue
