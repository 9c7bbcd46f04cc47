import Telecommand.Proofs.Script.Isolation
import Telecommand.Proofs.Stimulus.Combined

/-! # The log of a compilation

    The log is a faithful trace (`log_traces_compilation`).  It has, in the
    order of the lines, one record for each line that is not silent, and the
    counts at the end; what it tells of packets and of faults reads back as
    the packets and the diagnostics that the compilation has.

    Events, records, packets and diagnostics are all gathered from the lines
    in one way: a line gives what it gives by the delay that waits for it
    (`gather`).  So they are compared line by line, where each comparison is
    a case of what the line comes to. -/

namespace Telecommand.Script

open Command Stimulus Text

variable {α β : Type} {mode : DelayMode}

/-! ## What lines give -/

/-- What lines give, each by the delay that waits for it. -/
def gather (mode : DelayMode) (give : UInt64 → Line → Option α) (waiting : UInt64) :
    List Line → List α
  | [] => []
  | line :: rest =>
      (give waiting line).toList ++ gather mode give (mode.after waiting line.outcome) rest

theorem gather_append (give : UInt64 → Line → Option α) (waiting : UInt64)
    (front back : List Line) :
    gather mode give waiting (front ++ back)
      = gather mode give waiting front
        ++ gather mode give ((front.map Line.outcome).foldl mode.after waiting) back := by
  induction front generalizing waiting with
  | nil => rfl
  | cons line rest ih =>
      rw [List.cons_append, gather, ih, gather, List.append_assoc, List.map_cons,
        List.foldl_cons]

/-- What is taken from all that lines give is what is taken line by line. -/
theorem filterMap_gather (give : UInt64 → Line → Option α) (take : α → Option β)
    (waiting : UInt64) (lines : List Line) :
    (gather mode give waiting lines).filterMap take
      = gather mode (fun delay line => (give delay line).bind take) waiting lines := by
  induction lines generalizing waiting with
  | nil => rfl
  | cons line rest ih =>
      rw [gather, gather, List.filterMap_append, ih]
      cases give waiting line with
      | none => rfl
      | some given => cases htake : take given <;> simp [htake]

theorem map_gather (give : UInt64 → Line → Option α) (f : α → β) (waiting : UInt64)
    (lines : List Line) :
    (gather mode give waiting lines).map f
      = gather mode (fun delay line => (give delay line).map f) waiting lines := by
  rw [← List.filterMap_eq_map, filterMap_gather]
  simp only [← Option.map_eq_bind]

theorem length_gather {give : UInt64 → Line → Option α} {gives : Line → Bool}
    (h : ∀ delay line, (give delay line).isSome = gives line) (waiting : UInt64)
    (lines : List Line) :
    (gather mode give waiting lines).length = lines.countP gives := by
  induction lines generalizing waiting with
  | nil => rfl
  | cons line rest ih =>
      have hgives := h waiting line
      rw [gather, List.length_append, ih, List.countP_cons, ← hgives, Nat.add_comm]
      cases give waiting line <;> rfl

/-- What does not depend on the delay is given line by line. -/
theorem gather_eq_filterMap (give : Line → Option α) (waiting : UInt64) (lines : List Line) :
    gather mode (fun _ => give) waiting lines = lines.filterMap give := by
  induction lines generalizing waiting with
  | nil => rfl
  | cons line rest ih =>
      rw [gather, ih, List.filterMap_cons]
      cases give line <;> rfl

/-- The packets that lines send are those of their outcomes. -/
theorem gather_timed? (waiting : UInt64) (lines : List Line) :
    gather mode (fun delay line => line.outcome.timed? delay) waiting lines
      = emissions mode waiting (lines.map Line.outcome) := by
  induction lines generalizing waiting with
  | nil => rfl
  | cons line rest ih => rw [gather, ih, List.map_cons, emissions]

/-- The delay that waits for a line of a script is found by looking back from
    it. -/
theorem gather_numbered (give : UInt64 → Line → Option α) (raws : List Text) :
    gather mode give 0 (numbered raws)
      = raws.zipIdx.filterMap fun entry =>
          give (lookBack mode (raws.take entry.2)) (Line.ofRaw (entry.2 + 1) entry.1) := by
  induction raws using List.reverseRecOn with
  | nil => rfl
  | append_singleton front raw ih =>
      have hone : numberedFrom (front.length + 1) [raw] = [Line.ofRaw (front.length + 1) raw] := rfl
      rw [numbered_append, gather_append, map_outcome_numbered, foldl_after_eq_lookBack, ih, hone,
        gather, gather, List.append_nil]
      exact (filterMap_zipIdx_concat
        (fun before index line => give (lookBack mode before) (Line.ofRaw (index + 1) line))
        front raw).symm

/-! ## Events of a session -/

/-- The event that a line makes while a delay waits. -/
def Line.event? (waiting : UInt64) (line : Line) : Option Event :=
  match line.outcome with
  | .skipped => none
  | .delay microseconds => some (.delaySet line.number microseconds)
  | .packet packet => some (.packetEmitted line.number ⟨waiting, packet⟩)
  | .rejected fault => some (.lineRejected (line.diagnostic fault))

/-- What one line of a session has to tell. -/
theorem Session.snd_process (session : Session) (line : Line) :
    (session.process line).2 = line.event? session.delay := by
  rw [process, Line.event?]
  cases line.outcome <;> rfl

/-- **What a list of lines has to tell.** -/
theorem Session.snd_processAll (session : Session) (lines : List Line) :
    (session.processAll lines).2 = gather session.mode Line.event? session.delay lines := by
  induction lines generalizing session with
  | nil => rfl
  | cons line rest ih =>
      rw [processAll, gather]
      show (session.process line).2.toList ++ ((session.process line).1.processAll rest).2 = _
      rw [ih, process_eq, snd_process]

theorem Compilation.snd_traced (mode : DelayMode) (raws : List Text) :
    (traced mode raws).2
      = gather mode Line.event? 0 (numbered raws)
        ++ [.finished (ofLines mode raws).packets.length
              (ofLines mode raws).diagnostics.length] := by
  show ((Session.start mode).processAll (numbered raws)).2 ++ _ = _
  rw [Session.snd_processAll]
  rfl

/-! ## Records of lines -/

/-- A diagnostic as a record: a warning that says what the diagnostic says. -/
def Diagnostic.warning (diagnostic : Diagnostic) : Log.Record :=
  { level := .warn, source := .session, message := diagnostic.render, fields := [] }

namespace Line

/-- The record that the log has of a line while a delay waits.  It says what
    an accepted directive sets, what a command that encodes sends, and why any
    other line is rejected; of a silent line there is none. -/
def record? (waiting : UInt64) (line : Line) : Option Log.Record :=
  match line.statement with
  | .ok .nothing => none
  | .ok (.wait microseconds) => some
      { level := .debug
        source := .session
        message := "Wait for " ++ decimal microseconds.toNat ++ " us"
        fields := [⟨"line", decimal line.number⟩] }
  | .ok (.send opcode) =>
      match opcode.encode line.text with
      | .ok payload => some
          { level := .info
            source := .session
            message := opcode.keyword ++ ": " ++ (Packet.mk opcode payload).render
            fields := [⟨"line", decimal line.number⟩, ⟨"delay_us", decimal waiting.toNat⟩] }
      | .error refusal => some (line.diagnostic (.refused refusal)).warning
  | .error fault => some (line.diagnostic fault).warning

/-- The record of a line is that of its event. -/
theorem map_record_event? (waiting : UInt64) (line : Line) :
    (line.event? waiting).map Event.record = line.record? waiting := by
  rw [event?, record?, outcome]
  cases line.statement with
  | error fault => rfl
  | ok statement =>
      cases statement with
      | nothing => rfl
      | wait microseconds => rfl
      | send opcode =>
          simp only []
          cases opcode.encode line.text <;> rfl

/-- A line asks for nothing only if it is silent. -/
theorem statement_eq_nothing_iff {line : Line} :
    line.statement = .ok .nothing ↔ line.isSilent = true := by
  rw [statement]
  cases line.isSilent with
  | true => simp
  | false =>
      by_cases hkeyword : line.keyword = delayKeyword
      · cases line.delay? <;> simp [hkeyword]
      · cases Opcode.ofKeyword? line.keyword <;> simp [hkeyword]

/-- Every line has a record, unless it is silent. -/
theorem isSome_record? (waiting : UInt64) (line : Line) :
    (line.record? waiting).isSome = !line.isSilent := by
  have hsilent := @statement_eq_nothing_iff line
  rw [record?]
  cases hstatement : line.statement with
  | error fault => simpa [hstatement] using hsilent
  | ok statement =>
      cases statement with
      | nothing => simpa [hstatement] using hsilent
      | wait microseconds => simpa [hstatement] using hsilent
      | send opcode =>
          have hfalse : line.isSilent = false := by simpa [hstatement] using hsilent
          cases hencode : opcode.encode line.text <;> simp [hencode, hfalse]

end Line

/-! ## Records read back -/

/-- The bytes that are printed as two digits each, with spaces between. -/
def readFrame? (text : Text) : Option Bytes := (text.splitOn ' ').mapM readByte?

/-- The packet that a record tells of: its frame stands behind the keyword of
    its opcode, and its delay in a field. -/
def readSent? (record : Log.Record) : Option TimedPacket := do
  let (front, frame) ← cut? ' ' record.message
  let packet ← Packet.ofBytes? (← readFrame? frame)
  guard (front = packet.opcode.keyword ++ [':'])
  let field ← record.fields.find? fun field => field.name = "delay_us".toList
  return ⟨← readDelay? field.value, packet⟩

theorem readFrame?_render (packet : Packet) :
    readFrame? packet.render = some packet.toBytes := by
  have hspace : ∀ piece ∈ packet.toBytes.map hexPair, ' ' ∉ piece := by
    intro piece hpiece hmem
    obtain ⟨byte, -, rfl⟩ := List.mem_map.mp hpiece
    exact absurd (isHexDigit_of_mem_hexPair hmem) (by decide)
  have hbytes : packet.toBytes.map hexPair ≠ [] := by
    simp [Packet.toBytes, Packet.syncMarker]
  rw [readFrame?, Packet.render, List.splitOn_intercalate ' ' hspace hbytes,
    mapM_eq_some_iff readByte?_eq_some_iff]

/-- The record of a packet reads back as the packet. -/
theorem readSent?_packetEmitted (number : Nat) (timed : TimedPacket) :
    readSent? (Event.packetEmitted number timed).record = some timed := by
  have hspace : ' ' ∉ timed.packet.opcode.keyword ++ [':'] := by
    cases timed.packet.opcode <;> decide
  have hmessage : (Event.packetEmitted number timed).record.message
      = (timed.packet.opcode.keyword ++ [':']) ++ ' ' :: timed.packet.render := by
    simp [Event.record]
  have hdelay := (readDelay?_eq_some_iff (decimal timed.delay.toNat) timed.delay).mpr rfl
  have hfield : (Event.packetEmitted number timed).record.fields.find?
        (fun field => field.name = "delay_us".toList)
      = some ⟨"delay_us", decimal timed.delay.toNat⟩ := rfl
  simp only [readSent?, hmessage, cut?_append _ hspace, readFrame?_render,
    Packet.ofBytes?_toBytes, hfield, hdelay, Option.bind_eq_bind, Option.bind_some,
    Option.pure_def]
  rfl

namespace Line

/-- A line has a record of the level info if it sends a packet, and the record
    reads back as this packet. -/
theorem bind_readSent?_record? (waiting : UInt64) (line : Line) :
    ((line.record? waiting).bind fun record =>
        if record.level = .info then some (readSent? record) else none)
      = (line.outcome.timed? waiting).map some := by
  rw [← line.map_record_event?, event?]
  cases line.outcome with
  | packet packet =>
      exact congrArg some (readSent?_packetEmitted line.number ⟨waiting, packet⟩)
  | _ => rfl

/-- A line has a warning if it has a diagnostic, and the warning is what the
    diagnostic says. -/
theorem bind_message_record? (waiting : UInt64) (line : Line) :
    ((line.record? waiting).bind fun record =>
        if record.level = .warn then some record.message else none)
      = line.diagnostic?.map Diagnostic.render := by
  rw [← line.map_record_event?, event?, diagnostic?]
  cases line.outcome <;> rfl

end Line

/-! ## The log -/

/-- The records that the lines of a script have, in their order, each with the
    delay that looking back from its line finds. -/
def recordsByLine (mode : DelayMode) (raws : List Text) : List Log.Record :=
  raws.zipIdx.filterMap fun entry =>
    (Line.ofRaw (entry.2 + 1) entry.1).record? (lookBack mode (raws.take entry.2))

/-- How a log goes with the compilation of some lines. -/
structure Compilation.TracedBy (compilation : Compilation) (mode : DelayMode)
    (raws : List Text) (log : List Log.Record) : Prop where
  /-- The log has the records of the lines, and the counts at the end. -/
  by_line : log = recordsByLine mode raws ++ [
    { level := .debug
      source := .session
      message := "compilation finished"
      fields := [⟨"packets", decimal compilation.packets.length⟩,
        ⟨"errors", decimal compilation.diagnostics.length⟩] }]
  /-- Besides the counts there is a record for each line that is not silent. -/
  length : log.length = (numbered raws).countP (fun line => !line.isSilent) + 1
  /-- The records of the level info are as many as the packets, and each reads
      back as the packet of its place. -/
  sent : (log.filter fun record => record.level = .info).map readSent?
    = compilation.packets.map some
  /-- The warnings are as many as the diagnostics, and each is what the
      diagnostic of its place says. -/
  rejected : (log.filter fun record => record.level = .warn).map Log.Record.message
    = compilation.diagnostics.map Diagnostic.render

/-- The records of a compilation are those of its lines, and the one of the
    counts. -/
theorem Compilation.map_record_traced (mode : DelayMode) (raws : List Text) :
    (traced mode raws).2.map Event.record
      = gather mode Line.record? 0 (numbered raws)
        ++ [(Event.finished (ofLines mode raws).packets.length
              (ofLines mode raws).diagnostics.length).record] := by
  rw [snd_traced, List.map_append, map_gather]
  simp only [Line.map_record_event?]
  rfl

/-- What is read from the records of a level is taken from one after
    another. -/
theorem map_filter_level (level : Log.Level) (read : Log.Record → β) (log : List Log.Record) :
    (log.filter fun record => record.level = level).map read
      = log.filterMap fun record => if record.level = level then some (read record) else none := by
  rw [← List.filterMap_eq_map, List.filterMap_filter]
  simp

/-- **The log is a faithful trace.**  In either delay mode, the records of a
    compilation tell of its lines one by one, of its packets and of its
    diagnostics. -/
theorem Compilation.log_traces_compilation (mode : DelayMode) (raws : List Text) :
    (ofLines mode raws).TracedBy mode raws ((traced mode raws).2.map Event.record) := by
  rw [map_record_traced]
  refine
    { by_line := ?_
      length := ?_
      sent := ?_
      rejected := ?_ }
  · rw [gather_numbered]
    rfl
  · rw [List.length_append, length_gather Line.isSome_record?]
    rfl
  · rw [ofLines_eq, map_filter_level, List.filterMap_append, filterMap_gather]
    simp only [Line.bind_readSent?_record?]
    rw [← map_gather, gather_timed?, map_outcome_numbered]
    exact List.append_nil _
  · rw [ofLines_eq, map_filter_level, List.filterMap_append, filterMap_gather]
    simp only [Line.bind_message_record?]
    rw [gather_eq_filterMap, ← List.map_filterMap]
    exact List.append_nil _

end Telecommand.Script
