import Telecommand.Log
import Telecommand.Packet.Timed
import Telecommand.Script.Statement

/-! # Compilation sessions

    A session takes one line after another.  It keeps the delay that waits
    for the next packet, the packets so far and the diagnostics so far; a
    line with a fault adds its diagnostic and changes nothing else.  Every
    line that is not silent makes one event. -/

namespace Telecommand.Script

/-- How long a delay lasts. -/
inductive DelayMode
  /-- Every packet has the delay that was set last. -/
  | sticky
  /-- Only the first packet after a delay has it. -/
  | oneShot
  deriving DecidableEq, Repr

/-- The name of a delay mode in settings. -/
def DelayMode.name : DelayMode → Text
  | sticky => "sticky"
  | oneShot => "one-shot"

/-- What a session has to tell. -/
inductive Event
  | delaySet (line : Nat) (delay : UInt64)
  | packetEmitted (line : Nat) (timed : TimedPacket)
  | lineRejected (diagnostic : Diagnostic)
  | finished (packets errors : Nat)
  deriving DecidableEq, Repr

/-- The log record of an event. -/
def Event.record : Event → Log.Record
  | .delaySet line delay =>
      ⟨.debug, .session, "Wait for " ++ Text.decimal delay.toNat ++ " us",
        [⟨"line", Text.decimal line⟩]⟩
  | .packetEmitted line timed =>
      ⟨.info, .session,
        timed.packet.opcode.keyword ++ ": " ++ timed.packet.render,
        [⟨"line", Text.decimal line⟩,
          ⟨"delay_us", Text.decimal timed.delay.toNat⟩]⟩
  | .lineRejected diagnostic =>
      ⟨.warn, .session, diagnostic.render, []⟩
  | .finished packets errors =>
      ⟨.debug, .session, "compilation finished",
        [⟨"packets", Text.decimal packets⟩, ⟨"errors", Text.decimal errors⟩]⟩

/-- The state between two lines. -/
structure Session where
  mode : DelayMode
  delay : UInt64
  packets : Array TimedPacket
  diagnostics : Array Diagnostic
  deriving DecidableEq, Repr

namespace Session

/-- The state before the first line: no delay, no packets, no
    diagnostics. -/
def start (mode : DelayMode) : Session := ⟨mode, 0, #[], #[]⟩

/-- The delay that is left once a packet has gone out. -/
def delayAfterPacket (session : Session) : UInt64 :=
  match session.mode with
  | .sticky => session.delay
  | .oneShot => 0

/-- The session after a line, and the event that the line makes. -/
def process (session : Session) (line : Line) : Session × Option Event :=
  match line.outcome with
  | .skipped => (session, none)
  | .delay delay =>
      ({ session with delay := delay }, some (.delaySet line.number delay))
  | .packet packet =>
      let timed : TimedPacket := ⟨session.delay, packet⟩
      ({ session with
          delay := session.delayAfterPacket
          packets := session.packets.push timed },
        some (.packetEmitted line.number timed))
  | .rejected fault =>
      let diagnostic := line.diagnostic fault
      ({ session with diagnostics := session.diagnostics.push diagnostic },
        some (.lineRejected diagnostic))

/-- The session after a list of lines, and the events that they make. -/
def processAll (session : Session) : List Line → Session × List Event
  | [] => (session, [])
  | line :: rest =>
      let (next, event) := session.process line
      let (last, events) := next.processAll rest
      (last, event.toList ++ events)

end Session

end Telecommand.Script
