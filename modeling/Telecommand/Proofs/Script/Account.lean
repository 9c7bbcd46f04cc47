import Telecommand.Proofs.Script.Blank

/-! # The account of a script

    Every line of a script counts once: it is silent, or sets a delay, or
    sends a packet, or has a diagnostic, and never two of these
    (`every_line_counts_once`).  The packets and the diagnostics of a
    compilation are in the order of their lines, a diagnostic says what its
    line alone would have said, and read as a line again it says the same. -/

namespace Telecommand.Script

open Command Text

/-! ## Numbered lines -/

/-- The lines of a script are numbered from one, without gaps. -/
theorem map_number_numbered (raws : List Text) :
    (numbered raws).map Line.number = List.range' 1 raws.length := by
  rw [numbered, List.map_map]
  exact List.zipIdx_map_snd 1 raws

theorem mem_numbered_iff {raws : List Text} {line : Line} :
    line ∈ numbered raws
      ↔ ∃ i raw, raws[i]? = some raw ∧ line = Line.ofRaw (i + 1) raw := by
  rw [numbered, List.mem_map]
  constructor
  · rintro ⟨⟨raw, number⟩, hmem, rfl⟩
    obtain ⟨hnumber, hraw⟩ := List.mk_mem_zipIdx_iff_le_and_getElem?_sub.mp hmem
    refine ⟨number - 1, raw, hraw, ?_⟩
    rw [Nat.sub_add_cancel hnumber]
  · rintro ⟨i, raw, hraw, rfl⟩
    refine ⟨(raw, i + 1), ?_, rfl⟩
    exact List.mk_mem_zipIdx_iff_le_and_getElem?_sub.mpr ⟨Nat.le_add_left 1 i, hraw⟩

/-! ## What a line counts as -/

namespace Line

/-- Whether a line asks for nothing: it is empty or a comment. -/
def isSkipped (line : Line) : Bool :=
  match line.statement with
  | .ok .nothing => true
  | _ => false

/-- Whether a line is a directive that is accepted. -/
def setsDelay (line : Line) : Bool :=
  match line.statement with
  | .ok (.wait _) => true
  | _ => false

/-- The packet of a line that is a command and encodes: the opcode that it
    asks for, and the payload that its arguments make. -/
def sent? (line : Line) : Option Packet :=
  match line.statement with
  | .ok (.send opcode) => (opcode.encode line.text).toOption.map (Packet.mk opcode)
  | _ => none

/-- A line sends what it comes to. -/
theorem sent?_eq_packet? (line : Line) : line.sent? = line.outcome.packet? := by
  cases hstatement : line.statement with
  | error fault => simp [sent?, outcome, hstatement, Outcome.packet?]
  | ok statement =>
      cases statement with
      | nothing => simp [sent?, outcome, hstatement, Outcome.packet?]
      | wait microseconds => simp [sent?, outcome, hstatement, Outcome.packet?]
      | send opcode =>
          cases hencode : opcode.encode line.text with
          | error refusal =>
              simp [sent?, outcome, hstatement, hencode, Outcome.packet?, Except.toOption]
          | ok payload =>
              simp [sent?, outcome, hstatement, hencode, Outcome.packet?, Except.toOption]

/-- Whether a line sends a packet. -/
def sends (line : Line) : Bool := line.sent?.isSome

/-- Whether a line has a diagnostic. -/
def isFaulty (line : Line) : Bool := line.diagnostic?.isSome

/-- One of four things holds of a line, and the other three do not. -/
theorem counts_once (line : Line) :
    (line.isSkipped = true ∧ line.setsDelay = false ∧ line.sends = false
        ∧ line.isFaulty = false)
      ∨ (line.isSkipped = false ∧ line.setsDelay = true ∧ line.sends = false
        ∧ line.isFaulty = false)
      ∨ (line.isSkipped = false ∧ line.setsDelay = false ∧ line.sends = true
        ∧ line.isFaulty = false)
      ∨ (line.isSkipped = false ∧ line.setsDelay = false ∧ line.sends = false
        ∧ line.isFaulty = true) := by
  rw [sends, isFaulty, sent?_eq_packet?, diagnostic?]
  cases hstatement : line.statement with
  | error fault =>
      simp [isSkipped, setsDelay, outcome, hstatement, Outcome.packet?, Outcome.fault?]
  | ok statement =>
      cases statement with
      | nothing =>
          simp [isSkipped, setsDelay, outcome, hstatement, Outcome.packet?, Outcome.fault?]
      | wait microseconds =>
          simp [isSkipped, setsDelay, outcome, hstatement, Outcome.packet?, Outcome.fault?]
      | send opcode =>
          cases hencode : opcode.encode line.text with
          | error refusal =>
              simp [isSkipped, setsDelay, outcome, hstatement, hencode, Outcome.packet?,
                Outcome.fault?]
          | ok payload =>
              simp [isSkipped, setsDelay, outcome, hstatement, hencode, Outcome.packet?,
                Outcome.fault?]

end Line

/-- Lines sorted by what they count as are these lines. -/
theorem sorted_perm (lines : List Line) :
    (lines.filter Line.isSkipped ++ (lines.filter Line.setsDelay
      ++ (lines.filter Line.sends ++ lines.filter Line.isFaulty))).Perm lines := by
  induction lines with
  | nil => exact .nil
  | cons line rest ih =>
      have hfront := ih.cons line
      -- from the front the line moves behind the parts that it does not belong to
      rcases line.counts_once with h | h | h | h
      · simp only [List.filter_cons, h, Bool.false_eq_true, if_true, if_false]
        exact hfront
      · simp only [List.filter_cons, h, Bool.false_eq_true, if_true, if_false]
        exact List.perm_middle.trans hfront
      · simp only [List.filter_cons, h, Bool.false_eq_true, if_true, if_false]
        exact (List.perm_middle.append_left _).trans (List.perm_middle.trans hfront)
      · simp only [List.filter_cons, h, Bool.false_eq_true, if_true, if_false]
        exact ((List.perm_middle.append_left _).append_left _).trans
          ((List.perm_middle.append_left _).trans (List.perm_middle.trans hfront))

/-- The numbers of the lines of a script that have a property. -/
def numbersOf (property : Line → Bool) (raws : List Text) : List Nat :=
  ((numbered raws).filter property).map Line.number

/-! ## Diagnostics and their lines -/

theorem Line.diagnostic?_eq_some_iff {line : Line} {diagnostic : Diagnostic} :
    line.diagnostic? = some diagnostic
      ↔ line.outcome = .rejected diagnostic.fault ∧ diagnostic.line = line.number
        ∧ diagnostic.text = line.text := by
  obtain ⟨number, text, fault⟩ := diagnostic
  rw [diagnostic?]
  cases line.outcome with
  | rejected found =>
      simp only [Outcome.fault?, diagnostic, Option.map_some, Option.some.injEq,
        Diagnostic.mk.injEq, Outcome.rejected.injEq, eq_comm (a := line.number),
        eq_comm (a := line.text)]
      exact ⟨fun h => ⟨h.2.2, h.1, h.2.1⟩, fun h => ⟨h.2.1, h.2.2, h.1⟩⟩
  | _ => simp [Outcome.fault?]

/-- A line that is numbered anew has the diagnostic that it had, numbered
    anew. -/
theorem Line.diagnostic?_renumbered (number : Nat → Nat) (line : Line) :
    ({ line with number := number line.number } : Line).diagnostic?
      = line.diagnostic?.map fun diagnostic =>
          { diagnostic with line := number diagnostic.line } := by
  have houtcome : ({ line with number := number line.number } : Line).outcome = line.outcome := rfl
  rw [diagnostic?, diagnostic?, houtcome]
  cases line.outcome.fault? <;> rfl

theorem map_line_diagnostics (lines : List Line) :
    (lines.filterMap Line.diagnostic?).map Diagnostic.line
      = (lines.filter Line.isFaulty).map Line.number := by
  induction lines with
  | nil => rfl
  | cons line rest ih =>
      rw [List.filterMap_cons, List.filter_cons, Line.isFaulty]
      cases hdiagnostic : line.diagnostic? with
      | none => exact ih
      | some diagnostic =>
          have hline := (Line.diagnostic?_eq_some_iff.mp hdiagnostic).2.1
          rw [List.map_cons, hline, ih]
          rfl

namespace Compilation

variable {mode : DelayMode} {raws : List Text} {diagnostic : Diagnostic}

/-- **The diagnostics of a script.**  Each is about a line with a fault: it
    has the number of the line, its text without blanks, and the fault. -/
theorem mem_diagnostics_iff :
    diagnostic ∈ (ofLines mode raws).diagnostics
      ↔ ∃ i raw, raws[i]? = some raw ∧ outcomeOf raw = .rejected diagnostic.fault
        ∧ diagnostic.line = i + 1 ∧ diagnostic.text = compact raw := by
  rw [ofLines_eq]
  show diagnostic ∈ (numbered raws).filterMap Line.diagnostic? ↔ _
  rw [List.mem_filterMap]
  constructor
  · rintro ⟨line, hline, hdiagnostic⟩
    obtain ⟨i, raw, hraw, rfl⟩ := mem_numbered_iff.mp hline
    exact ⟨i, raw, hraw, Line.diagnostic?_eq_some_iff.mp hdiagnostic⟩
  · rintro ⟨i, raw, hraw, hdiagnostic⟩
    exact ⟨Line.ofRaw (i + 1) raw, mem_numbered_iff.mpr ⟨i, raw, hraw, rfl⟩,
      Line.diagnostic?_eq_some_iff.mpr hdiagnostic⟩

theorem map_line_ofLines :
    (ofLines mode raws).diagnostics.map Diagnostic.line = numbersOf Line.isFaulty raws := by
  rw [ofLines_eq]
  exact map_line_diagnostics (numbered raws)

/-- Diagnostics are in the order of their lines, and a line has one at most. -/
theorem pairwise_diagnostics :
    (ofLines mode raws).diagnostics.Pairwise fun first second => first.line < second.line := by
  rw [← List.pairwise_map (f := Diagnostic.line) (R := (· < ·)), map_line_ofLines]
  have hnumbers : ((numbered raws).map Line.number).Pairwise (· < ·) := by
    rw [map_number_numbered]
    exact List.pairwise_lt_range' 1
  exact hnumbers.sublist (List.filter_sublist.map Line.number)

/-- A line with a fault has its diagnostic also where it is the only one. -/
theorem ofLines_singleton {raw : Text} {fault : Fault} (h : outcomeOf raw = .rejected fault) :
    ofLines mode [raw] = ⟨[], [⟨1, compact raw, fault⟩]⟩ := by
  have hdiagnostic : (Line.ofRaw 1 raw).diagnostic? = some ⟨1, compact raw, fault⟩ :=
    Line.diagnostic?_eq_some_iff.mpr ⟨h, rfl, rfl⟩
  rw [ofLines_eq, List.map_singleton, h]
  show Compilation.mk [] ([Line.ofRaw 1 raw].filterMap Line.diagnostic?) = _
  rw [List.filterMap_cons, hdiagnostic, List.filterMap_nil]

end Compilation

/-- A line with a fault adds its diagnostic to a session and does nothing
    else. -/
theorem Session.process_rejected {session : Session} {line : Line} {fault : Fault}
    (h : line.outcome = .rejected fault) :
    (session.process line).1
      = { session with diagnostics := session.diagnostics.push (line.diagnostic fault) } := by
  rw [process, h]

/-! ## The account -/

/-- How a compilation accounts for the lines of its script. -/
structure Compilation.Accounts (compilation : Compilation) (raws : List Text) : Prop where
  /-- Every line counts once: as silent, as a delay, as a packet, or as a
      diagnostic. -/
  once : (numbersOf Line.isSkipped raws ++ (numbersOf Line.setsDelay raws
    ++ (numbersOf Line.sends raws ++ compilation.diagnostics.map Diagnostic.line))).Perm
      (List.range' 1 raws.length)
  /-- The packets are those of the lines that send one, in their order. -/
  packets : compilation.packets.map TimedPacket.packet = (numbered raws).filterMap Line.sent?
  /-- There are as many packets as lines that send one. -/
  count : compilation.packets.length = (numbersOf Line.sends raws).length
  /-- The diagnostics are in the order of their lines. -/
  ordered : compilation.diagnostics.Pairwise fun first second => first.line < second.line
  /-- A diagnostic has the number and the text of its line, and the fault that
      this line has alone. -/
  own : ∀ diagnostic ∈ compilation.diagnostics,
    1 ≤ diagnostic.line ∧ diagnostic.line ≤ raws.length
      ∧ ∃ raw, raws[diagnostic.line - 1]? = some raw ∧ diagnostic.text = compact raw
        ∧ ∀ mode, ofLines mode [raw] = ⟨[], [⟨1, diagnostic.text, diagnostic.fault⟩]⟩
  /-- A diagnostic comes again from its number and text, in a session that has
      read nothing else. -/
  reproduced : ∀ diagnostic ∈ compilation.diagnostics, ∀ mode,
    ((Session.start mode).process (Line.ofRaw diagnostic.line diagnostic.text)).1
      = { Session.start mode with diagnostics := #[diagnostic] }

/-- **Every line counts once.**  In either delay mode the compilation of a list
    of lines accounts for each of them. -/
theorem Compilation.every_line_counts_once (mode : DelayMode) (raws : List Text) :
    (ofLines mode raws).Accounts raws := by
  have hpackets : (ofLines mode raws).packets.map TimedPacket.packet
      = (numbered raws).filterMap Line.sent? := by
    rw [ofLines_eq, map_packet_emissions, ← map_outcome_numbered, List.filterMap_map]
    refine List.filterMap_congr ?_
    intro line _
    exact line.sent?_eq_packet?.symm
  refine
    { once := ?_
      packets := hpackets
      count := ?_
      ordered := pairwise_diagnostics
      own := ?_
      reproduced := ?_ }
  · have hsorted := (sorted_perm (numbered raws)).map Line.number
    rw [List.map_append, List.map_append, List.map_append, map_number_numbered] at hsorted
    rw [map_line_ofLines]
    exact hsorted
  · rw [← List.length_map TimedPacket.packet, hpackets, numbersOf, List.length_map,
      List.length_filterMap_eq_countP, List.countP_eq_length_filter]
    rfl
  · intro diagnostic hmem
    obtain ⟨i, raw, hraw, houtcome, hline, htext⟩ := mem_diagnostics_iff.mp hmem
    have hi : i < raws.length := (List.getElem?_eq_some_iff.mp hraw).1
    refine ⟨by omega, by omega, raw, ?_, htext, ?_⟩
    · rw [hline, Nat.add_sub_cancel]
      exact hraw
    · intro other
      rw [ofLines_singleton houtcome, htext]
  · intro diagnostic hmem other
    obtain ⟨i, raw, -, houtcome, hline, htext⟩ := mem_diagnostics_iff.mp hmem
    have hagain : (Line.ofRaw diagnostic.line diagnostic.text).outcome
        = .rejected diagnostic.fault := by
      rw [htext, Line.ofRaw_compact, outcome_ofRaw]
      exact houtcome
    rw [Session.process_rejected hagain, Line.diagnostic]
    show Session.mk other 0 #[] #[⟨diagnostic.line, compact diagnostic.text, diagnostic.fault⟩] = _
    rw [htext, compact_compact, ← htext]
    rfl

end Telecommand.Script
