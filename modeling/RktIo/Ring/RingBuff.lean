import RktIo.Lib.Bytes

/-!
# The ring buffer (`shared/ring_buff.c`)

A buffer of `size` bytes in which messages are passed from a producer to a consumer. A message is
written as one chunk, its length in front of its payload. A chunk that does not fit behind the
write position goes to the start of the buffer, and `eod` keeps the position where the data end
then.

Pointers into the buffer are offsets. The counters are 32 bits wide: `eod` and `isEmpty` are
signed, and are kept as their bits here.
-/

namespace RktIo.Ring

open Bytes

inductive RingBuffErr where
  | OK | BAD_ARG | GENERAL | NO_MEM | OVERRUN | SIZE | INTERNAL | PERM
  deriving Repr, DecidableEq

/-- `ring_buff_obj_t` with the memory behind `write_buff` and `read_buff`. -/
structure RingBuffObj where
  buff : Nat → BitVec 8
  size : Nat
  read : Nat
  write : Nat
  acc : Nat
  eod : Nat
  accSize : Nat
  isEmpty : Nat

def add32 (a b : Nat) : Nat := (a + b) % 2 ^ 32

def sub32 (a b : Nat) : Nat := (a + 2 ^ 32 - b) % 2 ^ 32

def NO_EOD : Nat := 2 ^ 32 - 1

def positive (x : Nat) : Bool := 0 < x && x < 2 ^ 31

def ringBuffCreate (buff : Nat → BitVec 8) (size : Nat) : Except RingBuffErr RingBuffObj :=
  if size = 0 then .error .BAD_ARG
  else
    .ok {
      buff := buff
      size := size
      read := 0
      write := 0
      acc := 0
      eod := NO_EOD
      accSize := 0
      isEmpty := 0 }

def ringBuffReserve (obj : RingBuffObj) (size : Nat) : Except RingBuffErr (Nat × RingBuffObj) :=
  if size > obj.size then .error .SIZE
  else
    let read := obj.read
    if size ≤ sub32 obj.size obj.write then
      if (obj.write < read ∧ add32 obj.write size > read)
          ∨ (obj.write = read ∧ positive obj.isEmpty) then
        .error .NO_MEM
      else
        .ok (obj.write, { obj with
          write := add32 obj.write size, isEmpty := add32 obj.isEmpty size })
    -- wrap around
    else if read < size ∨ read > obj.write ∨ (obj.write = read ∧ positive obj.isEmpty) then
      .error .NO_MEM
    else
      .ok (0, { obj with
        eod := obj.write, write := size, isEmpty := add32 obj.isEmpty size })

def ringBuffCommit (obj : RingBuffObj) (size : Nat) : RingBuffObj :=
  { obj with accSize := add32 obj.accSize size }

def ringBuffFree (obj : RingBuffObj) (buff size : Nat) : RingBuffObj :=
  { obj with read := add32 buff size, isEmpty := sub32 obj.isEmpty size }

def ringBuffRead (obj : RingBuffObj) (size : Nat) :
    Except RingBuffErr (Nat × Nat × RingBuffObj) :=
  if size > obj.size then .error .BAD_ARG
  else if size > obj.accSize then .error .NO_MEM
  else
    let obj := if add32 obj.acc size > obj.size then { obj with acc := 0 } else obj
    if obj.eod ≠ NO_EOD ∧ add32 obj.acc size > obj.eod then
      let read := sub32 obj.eod obj.acc
      if read = 0 then
        .ok (0, size, { obj with
          acc := size, accSize := sub32 obj.accSize size, eod := NO_EOD })
      else
        .ok (obj.acc, read, { obj with
          acc := 0, accSize := sub32 obj.accSize read, eod := NO_EOD })
    else
      .ok (obj.acc, size, { obj with
        accSize := sub32 obj.accSize size, acc := add32 obj.acc size })

def storeMsg (buff : Nat → BitVec 8) (sizePointer : Nat) (data : List (BitVec 8)) :
    Nat → BitVec 8 :=
  copy data.length (ofList data) 0 (store buff sizePointer 4 data.length) (sizePointer + 4)

def ringBuffWriteMsg (obj : RingBuffObj) (data : List (BitVec 8)) : RingBuffErr × RingBuffObj :=
  let size := data.length
  if size = 0 ∨ size + 4 > obj.size then (.BAD_ARG, obj)
  else
    match ringBuffReserve obj (size + 4) with
    | .error err => (err, obj)
    | .ok (sizePointer, obj) =>
      let obj := { obj with buff := storeMsg obj.buff sizePointer data }
      (.OK, ringBuffCommit obj (size + 4))

/-- What `ring_buff_read_msg` returns: the error, `*data`, `*messageSize` and the object. -/
structure ReadMsg where
  err : RingBuffErr
  data : Nat := 0
  messageSize : Nat := 0
  obj : RingBuffObj

def ringBuffReadMsg (obj : RingBuffObj) : ReadMsg :=
  match ringBuffRead obj 4 with
  | .error err => { err := err, obj := obj }
  | .ok (dataPointer, read, obj) =>
    if read ≠ 4 then { err := .INTERNAL, obj := obj }
    else
      let messageSize := load obj.buff dataPointer 4
      let obj := ringBuffFree obj dataPointer read
      match ringBuffRead obj messageSize with
      | .error err => { err := err, messageSize := messageSize, obj := obj }
      | .ok (data, read, obj) =>
        if read ≠ messageSize then
          { err := .INTERNAL, data := data, messageSize := messageSize, obj := obj }
        else { err := .OK, data := data, messageSize := messageSize, obj := obj }

/-! ## A producer and a consumer -/

/-- The buffer with its two users: the payload that the consumer has read and not freed, the
payloads that were accepted from the producer, and those that the consumer got. -/
structure World where
  obj : RingBuffObj
  held : Option (Nat × Nat) := none
  accepted : List (List (BitVec 8)) := []
  returned : List (List (BitVec 8)) := []

/-- The producer writes a message, or the consumer makes its next call: it frees the payload that
it holds, or reads a message if it holds none. -/
inductive Event where
  | write (data : List (BitVec 8))
  | consume
  deriving Repr, DecidableEq

inductive Reply where
  | wrote (err : RingBuffErr)
  | readMsg (err : RingBuffErr)
  | freed
  deriving Repr, DecidableEq

def World.exec (w : World) : Event → Reply × World
  | .write data =>
    let (err, obj) := ringBuffWriteMsg w.obj data
    (.wrote err,
      { w with obj := obj, accepted := if err = .OK then w.accepted ++ [data] else w.accepted })
  | .consume =>
    match w.held with
    | some (data, size) =>
      (.freed, { w with obj := ringBuffFree w.obj data size, held := none })
    | none =>
      let r := ringBuffReadMsg w.obj
      if r.err = .OK then
        (.readMsg .OK, { w with
          obj := r.obj
          held := some (r.data, r.messageSize)
          returned := w.returned ++ [slice r.obj.buff r.data r.messageSize] })
      else (.readMsg r.err, { w with obj := r.obj })

def step (w : World) (e : Event) : Option (Reply × World) := some (w.exec e)

end RktIo.Ring
