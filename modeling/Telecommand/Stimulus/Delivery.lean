import Telecommand.File.Error
import Telecommand.Stimulus.Basic

/-! # Delivering streams

    A rendered stream is written to one sink or two, the bytes first and
    whole.  Delivery is the same whatever takes the bytes; the sinks of this
    module hold them in memory, up to the room they have. -/

namespace Telecommand.Stimulus

/-- Why a stream is not delivered. -/
inductive WriteFault
  /-- A sink has no room for all of a text. -/
  | noRoom
  /-- The split layout has delays but nowhere to put them. -/
  | noDelaySink
  | os (error : File.OsError)
  deriving DecidableEq, Repr

/-- The sentence that reports a write fault. -/
def WriteFault.message : WriteFault → Text
  | noRoom => "failed to write whole buffer"
  | noDelaySink => "split output layout needs a delay sink"
  | os error => error.message

/-- Writes the byte text, and then the delay text if there is one. -/
def Rendered.deliver {m : Type → Type} [Monad m] (rendered : Rendered)
    (writeBytes : Bytes → ExceptT WriteFault m Unit)
    (writeDelays : Option (Bytes → ExceptT WriteFault m Unit)) :
    ExceptT WriteFault m Unit := do
  writeBytes rendered.bytes.toUtf8
  match rendered.delays, writeDelays with
  | none, _ => return ()
  | some _, none => throw .noDelaySink
  | some delays, some write => write delays.toUtf8

/-- A sink in memory: what it has taken, and how much it takes in all if it
    is bounded. -/
structure Sink where
  room : Option Nat
  received : Bytes
  deriving DecidableEq, Repr

namespace Sink

/-- A sink that has taken nothing. -/
def empty (room : Option Nat) : Sink := ⟨room, []⟩

/-- The part of some bytes that a sink still takes. -/
def fitting (sink : Sink) (bytes : Bytes) : Bytes :=
  match sink.room with
  | none => bytes
  | some room => bytes.take (room - sink.received.length)

/-- Takes what fits, and fails if that is not all. -/
def write (bytes : Bytes) (sink : Sink) : Except WriteFault Unit × Sink :=
  let taken := sink.fitting bytes
  (if taken.length < bytes.length then .error .noRoom else .ok (),
    { sink with received := sink.received ++ taken })

end Sink

/-- The byte sink and the delay sink of a delivery. -/
structure Sinks where
  bytes : Sink
  delays : Sink
  deriving DecidableEq, Repr

namespace Sinks

/-- Writes to the byte sink. -/
def writeBytes (bytes : Bytes) : ExceptT WriteFault (StateM Sinks) Unit :=
  fun sinks =>
    let (result, sink) := sinks.bytes.write bytes
    (result, { sinks with bytes := sink })

/-- Writes to the delay sink. -/
def writeDelays (bytes : Bytes) : ExceptT WriteFault (StateM Sinks) Unit :=
  fun sinks =>
    let (result, sink) := sinks.delays.write bytes
    (result, { sinks with delays := sink })

end Sinks

/-- Writes a packet list to sinks in memory; the delay sink may be withheld. -/
def writeTo (layout : Layout) (packets : List TimedPacket) (withDelays : Bool)
    (sinks : Sinks) : Except WriteFault Unit × Sinks :=
  ((render layout packets).deliver Sinks.writeBytes
    (if withDelays then some Sinks.writeDelays else none)).run sinks

end Telecommand.Stimulus
