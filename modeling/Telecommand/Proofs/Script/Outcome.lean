import Telecommand.Script.Compilation
import Mathlib.Data.List.Basic

/-! # Sessions by outcomes

    What a line comes to depends on its text alone.  A session is therefore
    decided by the outcomes of its lines: the step lemma `process_eq` says
    what one line does to the whole state, the run lemma `processAll_eq`
    what a list of lines does, and `ofLines_eq` what a compilation is. -/

namespace Telecommand.Script

/-! ## Parts of an outcome -/

namespace Outcome

/-- The delay that an outcome sets. -/
def delay? : Outcome → Option UInt64
  | delay microseconds => some microseconds
  | _ => none

/-- The packet that an outcome sends. -/
def packet? : Outcome → Option Packet
  | packet sent => some sent
  | _ => none

/-- The fault that an outcome reports. -/
def fault? : Outcome → Option Fault
  | rejected fault => some fault
  | _ => none

/-- The packet that an outcome sends, with the delay that waits for it. -/
def timed? (outcome : Outcome) (waiting : UInt64) : Option TimedPacket :=
  outcome.packet?.map (TimedPacket.mk waiting)

end Outcome

/-- The delay that waits after an outcome. -/
def DelayMode.after (mode : DelayMode) (waiting : UInt64) : Outcome → UInt64
  | .delay microseconds => microseconds
  | .packet _ =>
      match mode with
      | sticky => waiting
      | oneShot => 0
  | _ => waiting

/-- The packets of a list of outcomes, each with the delay that waits for
    it. -/
def emissions (mode : DelayMode) (waiting : UInt64) : List Outcome → List TimedPacket
  | [] => []
  | outcome :: rest =>
      (outcome.timed? waiting).toList ++ emissions mode (mode.after waiting outcome) rest

/-- The diagnostic of a line, if it has a fault. -/
def Line.diagnostic? (line : Line) : Option Diagnostic :=
  line.outcome.fault?.map line.diagnostic

/-- What a raw line comes to, wherever it stands. -/
def outcomeOf (raw : Text) : Outcome := (Line.ofRaw 1 raw).outcome

/-- The number of a line is no part of what it comes to. -/
theorem outcome_ofRaw (number : Nat) (raw : Text) :
    (Line.ofRaw number raw).outcome = outcomeOf raw := rfl

/-- A line sets a delay when it is a directive that is accepted. -/
theorem Line.outcome_eq_delay_iff {line : Line} {microseconds : UInt64} :
    line.outcome = .delay microseconds ↔ line.statement = .ok (.wait microseconds) := by
  cases hstatement : line.statement with
  | error fault => simp [outcome, hstatement]
  | ok statement =>
      cases statement with
      | nothing => simp [outcome, hstatement]
      | wait other => simp [outcome, hstatement]
      | send opcode =>
          cases hencode : opcode.encode line.text with
          | error refusal => simp [outcome, hstatement, hencode]
          | ok payload => simp [outcome, hstatement, hencode]

/-- A line sends a packet when it is a command whose arguments encode. -/
theorem Line.outcome_eq_packet_iff {line : Line} {packet : Packet} :
    line.outcome = .packet packet
      ↔ line.statement = .ok (.send packet.opcode)
        ∧ packet.opcode.encode line.text = .ok packet.payload := by
  obtain ⟨opcode, payload⟩ := packet
  cases hstatement : line.statement with
  | error fault => simp [outcome, hstatement]
  | ok statement =>
      cases statement with
      | nothing => simp [outcome, hstatement]
      | wait other => simp [outcome, hstatement]
      | send asked =>
          -- only the opcode that is asked for can have encoded the text
          by_cases hopcode : asked = opcode
          · rw [hopcode] at hstatement ⊢
            cases hencode : opcode.encode line.text with
            | error refusal => simp [outcome, hstatement, hencode]
            | ok made => simp [outcome, hstatement, hencode]
          · cases hencode : asked.encode line.text with
            | error refusal => simp [outcome, hstatement, hencode, hopcode]
            | ok made => simp [outcome, hstatement, hencode, hopcode]

/-! ## One line -/

namespace Session

/-- **What one line does to a session.**  It moves the delay on, adds the
    packet if it sends one, and its diagnostic if it has a fault. -/
theorem process_eq (session : Session) (line : Line) :
    (session.process line).1
      = { mode := session.mode
          delay := session.mode.after session.delay line.outcome
          packets := session.packets ++ (line.outcome.timed? session.delay).toArray
          diagnostics := session.diagnostics ++ line.diagnostic?.toArray } := by
  rw [process, Line.diagnostic?]
  cases line.outcome with
  | skipped => simp [DelayMode.after, Outcome.timed?, Outcome.packet?, Outcome.fault?]
  | delay microseconds =>
      simp [DelayMode.after, Outcome.timed?, Outcome.packet?, Outcome.fault?]
  | packet packet =>
      cases hmode : session.mode with
      | sticky =>
          simp [DelayMode.after, delayAfterPacket, hmode, Outcome.timed?, Outcome.packet?,
            Outcome.fault?]
      | oneShot =>
          simp [DelayMode.after, delayAfterPacket, hmode, Outcome.timed?, Outcome.packet?,
            Outcome.fault?]
  | rejected fault => simp [DelayMode.after, Outcome.timed?, Outcome.packet?, Outcome.fault?]

/-! ## A list of lines -/

/-- **What a list of lines does to a session.**  Only the outcomes decide the
    delay and the packets; each line with a fault adds its diagnostic. -/
theorem processAll_eq (session : Session) (lines : List Line) :
    (session.processAll lines).1
      = { mode := session.mode
          delay := (lines.map Line.outcome).foldl session.mode.after session.delay
          packets := session.packets
            ++ (emissions session.mode session.delay (lines.map Line.outcome)).toArray
          diagnostics := session.diagnostics
            ++ (lines.filterMap Line.diagnostic?).toArray } := by
  induction lines generalizing session with
  | nil => simp [processAll, emissions]
  | cons line rest ih =>
      rw [processAll]
      show ((session.process line).1.processAll rest).1 = _
      rw [ih, process_eq, List.map_cons, List.foldl_cons, emissions]
      -- what the first line adds moves in front of what the rest adds
      have hpackets : ∀ others : List TimedPacket,
          session.packets ++ (line.outcome.timed? session.delay).toArray ++ others.toArray
            = session.packets ++ ((line.outcome.timed? session.delay).toList ++ others).toArray := by
        intro others
        cases line.outcome.timed? session.delay <;> simp
      have hdiagnostics :
          session.diagnostics ++ line.diagnostic?.toArray
              ++ (rest.filterMap Line.diagnostic?).toArray
            = session.diagnostics ++ ((line :: rest).filterMap Line.diagnostic?).toArray := by
        cases h : line.diagnostic? <;> simp [h]
      rw [hpackets, hdiagnostics]

end Session

theorem map_outcome_numbered (raws : List Text) :
    (numbered raws).map Line.outcome = raws.map outcomeOf := by
  have hfst : (raws.zipIdx 1).map Prod.fst = raws := List.zipIdx_map_fst 1 raws
  conv_rhs => rw [← hfst]
  rw [numbered, List.map_map, List.map_map]
  rfl

/-- **What a compilation is.**  Its packets are those of the outcomes from no
    delay on, its diagnostics those of the numbered lines. -/
theorem Compilation.ofLines_eq (mode : DelayMode) (raws : List Text) :
    ofLines mode raws
      = ⟨emissions mode 0 (raws.map outcomeOf),
          (numbered raws).filterMap Line.diagnostic?⟩ := by
  show (((Session.start mode).processAll (numbered raws)).1.finish).1 = _
  rw [Session.processAll_eq, map_outcome_numbered]
  simp [Session.finish, Session.start]

/-! ## Packets of outcomes -/

variable {mode : DelayMode}

/-- Outcomes that follow others send their packets with the delay that these
    leave. -/
theorem emissions_append (waiting : UInt64) (front back : List Outcome) :
    emissions mode waiting (front ++ back)
      = emissions mode waiting front
        ++ emissions mode (front.foldl mode.after waiting) back := by
  induction front generalizing waiting with
  | nil => rfl
  | cons outcome rest ih =>
      rw [List.cons_append, emissions, ih, emissions, List.append_assoc, List.foldl_cons]

/-- Whatever delay waits, and however long delays last, the same packets go
    out. -/
theorem map_packet_emissions (mode : DelayMode) (waiting : UInt64) (outcomes : List Outcome) :
    (emissions mode waiting outcomes).map TimedPacket.packet
      = outcomes.filterMap Outcome.packet? := by
  induction outcomes generalizing waiting with
  | nil => rfl
  | cons outcome rest ih =>
      rw [emissions, List.map_append, ih, List.filterMap_cons]
      cases hsent : outcome.packet? with
      | none => simp [Outcome.timed?, hsent]
      | some sent => simp [Outcome.timed?, hsent]

/-- Every packet is that of one of the outcomes. -/
theorem packet_mem_of_mem_emissions {waiting : UInt64} {outcomes : List Outcome}
    {timed : TimedPacket} (h : timed ∈ emissions mode waiting outcomes) :
    Outcome.packet timed.packet ∈ outcomes := by
  have hmem : timed.packet ∈ outcomes.filterMap Outcome.packet? := by
    rw [← map_packet_emissions mode waiting]
    exact List.mem_map_of_mem h
  obtain ⟨outcome, houtcome, hsent⟩ := List.mem_filterMap.mp hmem
  cases outcome with
  | packet sent =>
      rw [← Option.some.inj hsent]
      exact houtcome
  | _ => cases hsent

end Telecommand.Script
