import Dtu.Framework.Bytes
import Dtu.Framework.Ring
import Dtu.Impl.LogLine

/-!
# The FIFO of messages

`struct kfifo` and its operations, `fifo_message_t` as the bytes that are copied
into it, and `data_fifo` as its threads use it: the producers (`submit_frame`,
`push_lora_to_fifo`, `debug_bt_push_to_fifo`) and `write_file_thread` each hold
`fifo_lock` for their accesses, and take them one by one.
-/

namespace Dtu

open Bytes Dtu.Ring

/-- `struct kfifo`. -/
structure Kfifo where
  buffer : List UInt8
  size : UInt32
  in_ : UInt32
  out : UInt32

/-- `min` of `kfifo.c`. -/
def uintMin (a b : UInt32) : UInt32 := if b < a then b else a

/-- `kfifo_len`. -/
def kfifoLen (fifo : Kfifo) : UInt32 := fifo.in_ - fifo.out

/-- `kfifo_left`. -/
def kfifoLeft (fifo : Kfifo) : UInt32 := fifo.size - (fifo.in_ - fifo.out)

/-- `kfifo_init`. -/
def kfifoInit (buffer : List UInt8) (size : UInt32) : Kfifo := ⟨buffer, size, 0, 0⟩

/-- `kfifo_put`. -/
def kfifoPut (fifo : Kfifo) (buffer : List UInt8) (len : UInt32) : Kfifo × UInt32 :=
  let len := uintMin len (fifo.size - fifo.in_ + fifo.out)
  let l := uintMin len (fifo.size - (fifo.in_ &&& (fifo.size - 1)))
  let b := memcpy fifo.buffer (fifo.in_ &&& (fifo.size - 1)).toNat (buffer.take l.toNat)
  let b := memcpy b 0 ((buffer.drop l.toNat).take (len - l).toNat)
  ({ fifo with buffer := b, in_ := fifo.in_ + len }, len)

/-- `kfifo_get`: the bytes it copies to `buffer`, and what it returns. -/
def kfifoGet (fifo : Kfifo) (len : UInt32) : Kfifo × List UInt8 × UInt32 :=
  let len := uintMin len (fifo.in_ - fifo.out)
  let l := uintMin len (fifo.size - (fifo.out &&& (fifo.size - 1)))
  let bytes := (fifo.buffer.drop (fifo.out &&& (fifo.size - 1)).toNat).take l.toNat ++
    fifo.buffer.take (len - l).toNat
  ({ fifo with out := fifo.out + len }, bytes, len)

/-! ## Messages as bytes -/

/-- `sizeof(fifo_message_t)`. -/
abbrev messageSize : UInt32 := 272

/-- The bytes of a `fifo_message_t`. -/
def FifoMessage.bytes (msg : FifoMessage) : List UInt8 :=
  leBytes 4 msg.type.toNat ++ leBytes 4 msg.len.toNat ++ msg.data.toList ++ leBytes 4 msg.frameId.toNat ++
    leBytes 2 msg.partIndex.toNat ++ leBytes 2 msg.partCount.toNat

/-- The `fifo_message_t` of bytes. -/
def FifoMessage.ofBytes (bytes : List UInt8) : FifoMessage where
  type := UInt32.ofNat (leValue (bytes.take 4))
  len := UInt32.ofNat (leValue ((bytes.drop 4).take 4))
  data := Vector.ofFn fun i => bytes.getD (8 + i) 0
  frameId := UInt32.ofNat (leValue ((bytes.drop 264).take 4))
  partIndex := UInt16.ofNat (leValue ((bytes.drop 268).take 2))
  partCount := UInt16.ofNat (leValue ((bytes.drop 270).take 2))

/-! ## `data_fifo` and its threads -/

/-- `FIFO_SIZE`. -/
abbrev fifoSize : Nat := 16 * 1024

/-- The thread that holds `fifo_lock`, and what it does next: the producers are
the elements of `ι`. -/
inductive Holder (ι : Type) where
  | free
  /-- A producer is about to test `kfifo_left`. -/
  | testLeft (producer : ι) (msg : FifoMessage)
  /-- A producer has found room. -/
  | put (producer : ι) (msg : FifoMessage)
  /-- `write_file_thread` is about to test `kfifo_len`. -/
  | testLen
  /-- `write_file_thread` has found a message. -/
  | get

/-- `data_fifo` and `fifo_lock`, with the messages that producers have put and
that `write_file_thread` has got. -/
structure DataFifo (ι : Type) where
  fifo : Kfifo
  holder : Holder ι
  accepted : List FifoMessage
  obtained : List FifoMessage

/-- `main` initialises the FIFO over `fifo_buffer`. -/
def DataFifo.init (ι : Type) (fifoBuffer : Vector UInt8 fifoSize) : DataFifo ι where
  fifo := kfifoInit fifoBuffer.toList (UInt32.ofNat fifoSize)
  holder := .free
  accepted := []
  obtained := []

/-- What happens next at the lock. -/
inductive FifoAction (ι : Type) where
  /-- A producer locks it, to put a message. -/
  | lockPut (producer : ι) (msg : FifoMessage)
  /-- `write_file_thread` locks it, or is woken from its wait. -/
  | lockGet
  /-- The holder does what is next. -/
  | resume
  /-- `write_file_thread` sees `stop_flag` and unlocks. -/
  | stop

/-- One access. A producer without room, and `write_file_thread` without a
message (`pthread_cond_timedwait`), let go of the lock. -/
def DataFifo.step {ι : Type} (s : DataFifo ι) : FifoAction ι → Option (DataFifo ι)
  | .lockPut producer msg =>
    match s.holder with
    | .free => some { s with holder := .testLeft producer msg }
    | _ => none
  | .lockGet =>
    match s.holder with
    | .free => some { s with holder := .testLen }
    | _ => none
  | .resume =>
    match s.holder with
    | .free => none
    | .testLeft producer msg =>
      if kfifoLeft s.fifo < messageSize then some { s with holder := .free }
      else some { s with holder := .put producer msg }
    | .put _ msg =>
      some { s with
        fifo := (kfifoPut s.fifo msg.bytes messageSize).1
        holder := .free
        accepted := s.accepted ++ [msg] }
    | .testLen =>
      if kfifoLen s.fifo < messageSize then some { s with holder := .free }
      else some { s with holder := .get }
    | .get =>
      let (fifo, bytes, readLen) := kfifoGet s.fifo messageSize
      some { s with
        fifo := fifo
        holder := .free
        obtained := if readLen = messageSize then s.obtained ++ [FifoMessage.ofBytes bytes] else s.obtained }
  | .stop =>
    match s.holder with
    | .testLen => some { s with holder := .free }
    | _ => none

/-- The accesses one after the other. -/
def DataFifo.run {ι : Type} (actions : List (FifoAction ι)) (s : DataFifo ι) : Option (DataFifo ι) :=
  actions.foldlM DataFifo.step s

end Dtu
