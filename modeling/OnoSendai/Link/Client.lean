import Mathlib.Data.List.AList
import OnoSendai.Link.Wire

/-!
# The caller's end of a link

The caller opens streams, each with a bounded queue of its own, and a reader task routes every
frame of the peer to the queue of its stream. When the link fails the reader takes every stream
out of the table and puts the failure into their queues.

The steps are as fine as the code's: `open` checks the status of the link, registers the stream
and sends its frame one after the other, the reader looks a stream up before it delivers to it,
and a failure is marked, recorded, and told to each drained stream in turn.
-/

namespace OnoSendai.Link

/-! ### State -/

/-- Who reads a stream: a `RemoteStream`, or a call of `act`. -/
inductive Consumer
  | stream
  | act
deriving DecidableEq

/-- How the call of `open` that registered a stream ended, if it did. -/
inductive Opening
  | pending
  | opened
  | refused
deriving DecidableEq

/-- A registered stream: its queue and its consumer. `held` says that the receiver is still there,
`finished` that the consumer has read the end, `taken` what it has read, and `exhausted` that it
was told there is nothing left. -/
structure Channel (μ : Type) where
  id : StreamId
  consumer : Consumer
  opening : Opening
  queue : List (Inbound μ)
  held : Bool
  unacknowledged : Nat
  finished : Bool
  cancelled : Bool
  taken : List (Inbound μ)
  exhausted : Bool

/-- How far the reader has come in failing the link; `tell` lists the streams still to be told. -/
inductive FailStage
  | mark
  | record
  | drain
  | tell (remaining : List Nat)

/-- What the reader is at: it waits for a frame, holds the sender of a stream it looked up, fails
the link, or has stopped. -/
inductive Reader (μ : Type)
  | waiting
  | routing (channel : Nat) (frame : Frame μ)
  | failing (error : ErrorValue) (stage : FailStage)
  | stopped

/-- The caller's end of a link. `checked` counts the calls of `open` that have found the link
alive and not yet registered their stream. -/
structure Client (μ : Type) where
  table : AList fun _ : StreamId => Nat
  channels : List (Channel μ)
  nextId : StreamId
  alive : Bool
  failure : Option ErrorValue
  reader : Reader μ
  checked : Nat

/-- A frame the caller sends. -/
inductive ClientFrame
  | start (id : StreamId)
  | cancel (id : StreamId)
  | credit (id : StreamId) (granted : Nat)

/-- The identifier of the stream registered at a place. -/
def idAt (index : Nat) : StreamId :=
  UInt32.ofNat (index + 1)

theorem idAt_inj {i j : Nat} (hi : i < 2 ^ 32) (hj : j < 2 ^ 32) (h : idAt i = idAt j) : i = j := by
  have hnat := congrArg UInt32.toNat h
  simp only [idAt, UInt32.toNat_ofNat'] at hnat
  omega

theorem idAt_add_one (index : Nat) : idAt index + 1 = idAt (index + 1) := by
  rw [idAt, idAt, ← UInt32.ofNat_one, ← UInt32.ofNat_add]

namespace Client

variable {μ : Type}

/-- A link whose handshake is over. -/
def initial : Client μ where
  table := ∅
  channels := []
  nextId := 1
  alive := true
  failure := none
  reader := .waiting
  checked := 0

/-- The number of registered streams. -/
def size (client : Client μ) : Nat :=
  client.table.entries.length

/-- Whether someone still holds a sender of the stream: the table, the reader that routes to it,
or the failure that is still to be told to it. -/
def hasSender (client : Client μ) (index : Nat) : Bool :=
  index ∈ client.table.entries.map (·.2) ||
    match client.reader with
    | .routing channel _ => channel = index
    | .failing _ (.tell remaining) => index ∈ remaining
    | _ => false

/-- Changes one channel. -/
def update (client : Client μ) (index : Nat) (f : Channel μ → Channel μ) : Client μ :=
  { client with channels := client.channels.modify index f }

/-- Takes the entry under an identifier out of the table. -/
def release (client : Client μ) (id : StreamId) : Client μ :=
  { client with table := client.table.erase id }

/-! ### Opening a stream -/

/-- `open` finds the link alive. -/
def check (client : Client μ) : Option (Client μ) :=
  if client.alive then some { client with checked := client.checked + 1 } else none

/-- `open` registers its stream under the next identifier, or is refused for too many streams. -/
def register (limits : Limits) (client : Client μ) (consumer : Consumer) : Option (Client μ) :=
  if client.checked = 0 then
    none
  else if limits.maxStreams ≤ client.size then
    some { client with checked := client.checked - 1 }
  else
    let channel : Channel μ :=
      { id := client.nextId, consumer, opening := .pending, queue := [], held := true,
        unacknowledged := 0, finished := false, cancelled := false, taken := [],
        exhausted := false }
    some { client with
      table := client.table.insert client.nextId client.channels.length
      channels := client.channels ++ [channel]
      nextId := client.nextId + 1
      checked := client.checked - 1 }

/-- The frame of a registered stream is queued for the writer, and `open` returns. -/
def sent (client : Client μ) (index : Nat) : Option (Client μ × List ClientFrame) :=
  match client.channels[index]? with
  | some channel =>
    if channel.opening = .pending then
      some (client.update index fun channel => { channel with opening := .opened },
        [.start channel.id])
    else
      none
  | none => none

/-- The message of a registered stream does not encode, and `open` returns the error. -/
def unencodable (client : Client μ) (index : Nat) : Option (Client μ) :=
  match client.channels[index]? with
  | some channel =>
    if channel.opening = .pending then
      some (client.update index fun channel =>
        { channel with opening := .refused, held := false })
    else
      none
  | none => none

/-- The writer is gone: the stream is released again, and `open` returns the error. -/
def gone (client : Client μ) (index : Nat) : Option (Client μ) :=
  match client.channels[index]? with
  | some channel =>
    if channel.opening = .pending then
      some ((client.update index fun channel =>
        { channel with opening := .refused, held := false }).release channel.id)
    else
      none
  | none => none

/-! ### The reader -/

/-- The reader takes a frame and looks its stream up; a frame for a stream that is gone is
dropped. -/
def read (client : Client μ) (frame : Frame μ) : Option (Client μ) :=
  match client.reader with
  | .waiting =>
    match client.table.lookup frame.stream with
    | some index => some { client with reader := .routing index frame }
    | none => some client
  | _ => none

/-- Whether a queue has room: one slot more than the window, so that the end, which costs no
credit, has somewhere to land. -/
def hasRoom (window : Nat) (channel : Channel μ) : Bool :=
  channel.queue.length < window + 1

/-- The reader delivers a frame to the stream it looked up. A queue that is full and a receiver
that is gone both fail the link. -/
def deliver (window : Nat) (client : Client μ) : Option (Client μ) :=
  match client.reader with
  | .routing index frame =>
    match client.channels[index]? with
    | some channel =>
      if channel.held && hasRoom window channel then
        some { client.update index (fun channel =>
          { channel with queue := channel.queue ++ [frame.inbound] }) with reader := .waiting }
      else
        some { client with
          reader := .failing (ProtocolError.creditExceeded frame.stream).toErrorValue .mark }
    | none => none
  | _ => none

/-- The transport ends or fails, or a frame does not decode. -/
def cut (client : Client μ) (error : ErrorValue) : Option (Client μ) :=
  match client.reader with
  | .waiting => some { client with reader := .failing error .mark }
  | _ => none

/-- One step of failing the link. Telling a stream is best effort: a full queue is passed over. -/
def fail (window : Nat) (client : Client μ) : Option (Client μ) :=
  match client.reader with
  | .failing error .mark => some { client with alive := false, reader := .failing error .record }
  | .failing error .record =>
    some { client with
      failure := client.failure <|> some error
      reader := .failing error .drain }
  | .failing error .drain =>
    some { client with
      table := ∅
      reader := .failing error (.tell (client.table.entries.map (·.2))) }
  | .failing error (.tell (index :: remaining)) =>
    some { client.update index (fun channel =>
      if channel.held && hasRoom window channel then
        { channel with queue := channel.queue ++ [.failure error] }
      else channel) with reader := .failing error (.tell remaining) }
  | .failing _ (.tell []) => some { client with reader := .stopped }
  | _ => none

/-! ### Consumers -/

/-- The number of messages after which room is granted: half a window. -/
def batch (window : Nat) : Nat :=
  max (window / 2) 1

/-- Counts a message that was taken, and grants room for what was taken when a batch is full. -/
def acknowledge (window : Nat) (channel : Channel μ) : Channel μ × List ClientFrame :=
  let unacknowledged := channel.unacknowledged + 1
  if batch window ≤ unacknowledged then
    ({ channel with unacknowledged := 0 }, [.credit channel.id unacknowledged])
  else
    ({ channel with unacknowledged }, [])

/-- The consumer of a stream takes the oldest message. `RemoteStream::recv` acknowledges every
message; a call of `act` acknowledges none and is over with its outcome. -/
def take (window : Nat) (client : Client μ) (index : Nat) (channel : Channel μ)
    (inbound : Inbound μ) (rest : List (Inbound μ)) : Client μ × List ClientFrame :=
  let channel := { channel with queue := rest, taken := channel.taken ++ [inbound] }
  match channel.consumer, inbound with
  | _, .finish =>
    ((client.update index fun _ => { channel with finished := true, exhausted := true }).release
      channel.id, [])
  | .act, .outcome _ =>
    ((client.update index fun _ => { channel with finished := true }).release channel.id, [])
  | .act, _ =>
    (client.update index fun _ => { channel with unacknowledged := channel.unacknowledged + 1 },
      [])
  | .stream, _ =>
    let acknowledged := acknowledge window channel
    (client.update index fun _ => acknowledged.1, acknowledged.2)

/-- A consumer asks for the next message. With an empty queue it waits while there is a sender,
and is told that nothing is left otherwise. -/
def recv (window : Nat) (client : Client μ) (index : Nat) :
    Option (Client μ × List ClientFrame) :=
  match client.channels[index]? with
  | some channel =>
    if channel.opening = .opened && channel.held &&
        !(channel.consumer = .act && channel.finished) then
      match channel.queue with
      | inbound :: rest => some (client.take window index channel inbound rest)
      | [] =>
        if client.hasSender index then
          none
        else if channel.consumer = .act then
          some ((client.update index fun channel => { channel with finished := true }).release
            channel.id, [])
        else
          some (client.update index fun channel => { channel with exhausted := true }, [])
    else
      none
  | none => none

/-- The consumer of a `RemoteStream` stops it, unless it has read its end. -/
def cancel (client : Client μ) (index : Nat) : Option (Client μ × List ClientFrame) :=
  match client.channels[index]? with
  | some channel =>
    if channel.opening = .opened && channel.consumer = .stream && channel.held then
      if channel.finished then
        some (client, [])
      else
        some ((client.update index fun channel => { channel with cancelled := true }).release
          channel.id, [.cancel channel.id])
    else
      none
  | none => none

/-- A consumer drops its receiver. Dropping a `RemoteStream` cancels it first; a call of `act`
that is dropped leaves its entry where it is. -/
def drop (client : Client μ) (index : Nat) : Option (Client μ) :=
  match client.channels[index]? with
  | some channel =>
    if channel.opening = .opened && channel.held &&
        (channel.consumer = .act || channel.finished || channel.cancelled) then
      some (client.update index fun channel => { channel with held := false })
    else
      none
  | none => none

end Client

end OnoSendai.Link
