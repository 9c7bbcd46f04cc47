import Telecommand.Script.Session

/-! # Compilations

    A whole script compiled: its packets in order, and a diagnostic for
    each line with a fault.  A compilation always has a result; faults in
    the script never stop it. -/

namespace Telecommand.Script

/-- What a script comes to. -/
structure Compilation where
  packets : List TimedPacket
  diagnostics : List Diagnostic
  deriving DecidableEq, Repr

/-- The end of a session, with its last event. -/
def Session.finish (session : Session) : Compilation × Event :=
  (⟨session.packets.toList, session.diagnostics.toList⟩,
    .finished session.packets.size session.diagnostics.size)

/-- The lines of a script, numbered from one. -/
def numbered (raws : List Text) : List Line :=
  (raws.zipIdx 1).map fun (raw, number) => Line.ofRaw number raw

namespace Compilation

/-- The compilation of a list of lines, with the events that lead to it. -/
def traced (mode : DelayMode) (raws : List Text) : Compilation × List Event :=
  let (session, events) := (Session.start mode).processAll (numbered raws)
  let (compilation, event) := session.finish
  (compilation, events ++ [event])

/-- The compilation of a list of lines. -/
def ofLines (mode : DelayMode) (raws : List Text) : Compilation :=
  (traced mode raws).1

/-- The compilation of a source text. -/
def ofSource (mode : DelayMode) (source : Text) : Compilation :=
  ofLines mode source.lines

/-- The number of faulty lines. -/
def faultCount (compilation : Compilation) : Nat := compilation.diagnostics.length

/-- Whether no line has a fault. -/
def isFaultless (compilation : Compilation) : Bool := compilation.diagnostics.isEmpty

/-- The bytes of all frames, each with the delay before it. -/
def schedule (compilation : Compilation) : List (UInt64 × UInt8) :=
  compilation.packets.flatMap TimedPacket.schedule

/-- The bytes of all frames. -/
def byteStream (compilation : Compilation) : Bytes :=
  compilation.schedule.map Prod.snd

/-- The delay before each byte of the byte stream. -/
def delayStream (compilation : Compilation) : List UInt64 :=
  compilation.schedule.map Prod.fst

/-- The packets of a clean compilation; a compilation with faults is
    refused as it is. -/
def validated (compilation : Compilation) :
    Except Compilation (List TimedPacket) :=
  if compilation.isFaultless then .ok compilation.packets else .error compilation

end Compilation

end Telecommand.Script
