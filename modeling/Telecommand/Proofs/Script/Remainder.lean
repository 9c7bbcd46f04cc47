import Telecommand.Proofs.Command.Encoding
import Telecommand.Proofs.Script.Grammar
import Mathlib.Data.List.Forall2

/-! # Text behind argument lists

    A complete argument list ends what a line says.  Its arguments read back,
    whatever is written in front of them and behind them
    (`arguments_eq_ok_iff`), and what is put behind them is no part of the list
    (`HasArguments.append`).  So a command encodes to the same
    (`encode_append`), and a line asks for the same (`statement_append`): its
    keyword, the mark of a comment and the number of a directive all stand in
    front.

    A compilation is decided by what its lines come to
    (`map_report_diagnostics`), so a script with more text behind its argument
    lists sends the same packets, and reports the same faults of the same lines
    (`argument_lists_end_lines`). -/

namespace Telecommand.Script

open Command Text

variable {raw other : Text} {args : List Text} {raws others : List Text}

/-! ## One command -/

/-- A command encodes to the same with more text behind its arguments. -/
theorem encode_append (h : HasArguments raw args) (opcode : Opcode) (extra : Text) :
    opcode.encode (raw ++ extra) = opcode.encode raw := by
  rw [Opcode.encode, Opcode.encode, h.arguments_append]

/-! ## One line -/

/-- A line with an argument list still has one without its blanks. -/
theorem exists_hasArguments_compact (h : HasArguments raw args) :
    ∃ bare, HasArguments (compact raw) bare := by
  obtain ⟨front, inner, back, rfl⟩ := exists_hasArguments_iff.mp ⟨args, h⟩
  exact exists_hasArguments_iff.mpr ⟨_, _, _, compact_call front inner back⟩

theorem encode_compact_append (h : HasArguments raw args) (opcode : Opcode) (extra : Text) :
    opcode.encode (compact (raw ++ extra)) = opcode.encode (compact raw) := by
  obtain ⟨bare, hbare⟩ := exists_hasArguments_compact h
  rw [compact_append, encode_append hbare]

/-- A text that is not empty says nothing only if it begins as a comment. -/
theorem isSilent_append_iff (h : raw ≠ []) (extra : Text) :
    IsSilent (raw ++ extra) ↔ IsSilent raw := by
  obtain ⟨c, rest, rfl⟩ := List.exists_cons_of_ne_nil h
  simp [IsSilent]

/-- **A line asks for the same with more text behind its arguments.** -/
theorem statement_append (h : HasArguments raw args) (number : Nat) (extra : Text) :
    (Line.ofRaw number (raw ++ extra)).statement = (Line.ofRaw number raw).statement := by
  obtain ⟨bare, hbare⟩ := exists_hasArguments_compact h
  have hopens := hbare.opens
  have htext : (Line.ofRaw number (raw ++ extra)).text
      = (Line.ofRaw number raw).text ++ compact extra :=
    compact_append raw extra
  have hsilent : (Line.ofRaw number (raw ++ extra)).isSilent
      = (Line.ofRaw number raw).isSilent := by
    rw [Bool.eq_iff_iff, isSilent_ofRaw_iff, isSilent_ofRaw_iff, compact_append]
    exact isSilent_append_iff (List.ne_nil_of_mem hopens) _
  have hkeyword : (Line.ofRaw number (raw ++ extra)).keyword = (Line.ofRaw number raw).keyword := by
    rw [Line.keyword, Line.keyword, htext]
    exact before_append_of_mem hopens _
  have hdelay : (Line.ofRaw number (raw ++ extra)).delay? = (Line.ofRaw number raw).delay? := by
    have hargs : arguments ((Line.ofRaw number raw).text ++ compact extra)
        = arguments (Line.ofRaw number raw).text :=
      hbare.arguments_append _
    rw [Line.delay?, Line.delay?, htext, hargs]
  rw [Line.statement, Line.statement, hsilent, hkeyword, hdelay]

/-- What a line comes to is decided by what it asks for, and by what its text
    encodes to. -/
theorem Line.outcome_congr {line longer : Line} (hstatement : longer.statement = line.statement)
    (hencode : ∀ opcode : Opcode, opcode.encode longer.text = opcode.encode line.text) :
    longer.outcome = line.outcome := by
  rw [outcome, outcome, hstatement]
  simp only [hencode]

theorem outcomeOf_append (h : HasArguments raw args) (extra : Text) :
    outcomeOf (raw ++ extra) = outcomeOf raw :=
  Line.outcome_congr (statement_append h 1 extra) fun opcode => encode_compact_append h opcode extra

/-! ## A script -/

/-- How a line goes on: with any text behind a complete argument list.  Any
    other line stays. -/
inductive GoesOn : Text → Text → Prop
  | kept (raw : Text) : GoesOn raw raw
  | behind {raw : Text} {args : List Text} (hargs : HasArguments raw args) (extra : Text) :
      GoesOn raw (raw ++ extra)

theorem GoesOn.outcomeOf_eq (h : GoesOn raw other) : outcomeOf other = outcomeOf raw := by
  cases h with
  | kept => rfl
  | behind hargs extra => exact outcomeOf_append hargs extra

theorem map_outcomeOf_of_goesOn (h : List.Forall₂ GoesOn raws others) :
    others.map outcomeOf = raws.map outcomeOf := by
  induction h with
  | nil => rfl
  | cons hline _ ih => rw [List.map_cons, List.map_cons, hline.outcomeOf_eq, ih]

/-- What a diagnostic reports, without the text that it quotes. -/
def Diagnostic.report (diagnostic : Diagnostic) : Nat × Fault :=
  (diagnostic.line, diagnostic.fault)

namespace Compilation

/-- **Reports are decided by outcomes.**  The faults of a compilation, with
    their lines, are those of the outcomes in order. -/
theorem map_report_diagnostics (mode : DelayMode) (raws : List Text) :
    (ofLines mode raws).diagnostics.map Diagnostic.report
      = ((raws.map outcomeOf).zipIdx 1).filterMap fun (outcome, number) =>
          outcome.fault?.map (Prod.mk number) := by
  rw [ofLines_eq]
  show ((numbered raws).filterMap Line.diagnostic?).map Diagnostic.report = _
  rw [List.map_filterMap, numbered, List.filterMap_map, List.zipIdx_map, List.filterMap_map]
  refine List.filterMap_congr ?_
  rintro ⟨raw, number⟩ -
  show ((outcomeOf raw).fault?.map _).map Diagnostic.report = (outcomeOf raw).fault?.map _
  rw [Option.map_map]
  rfl

/-- **Argument lists read back, and end their lines.**  The arguments of a text
    are those that stand between the first parenthesis that opens and the next
    one that closes, with commas between them: there are no others, and nothing
    else has arguments.  More text behind a complete argument list changes
    neither what its line asks for, nor what any command encodes to, with or
    without its blanks.  And sources with more text behind argument lists send
    the same packets, and have the same faults on the same lines. -/
theorem argument_lists_end_lines :
    (∀ (raw : Text) (args : List Text), arguments raw = .ok args ↔ HasArguments raw args)
      ∧ (∀ (raw : Text) (args : List Text) (extra : Text), HasArguments raw args →
        (∀ number, (Line.ofRaw number (raw ++ extra)).statement
            = (Line.ofRaw number raw).statement)
          ∧ ∀ opcode : Opcode, opcode.encode (raw ++ extra) = opcode.encode raw
            ∧ ∀ number, opcode.encode (Line.ofRaw number (raw ++ extra)).text
              = opcode.encode (Line.ofRaw number raw).text)
      ∧ ∀ (mode : DelayMode) (source longer : Text),
        List.Forall₂ GoesOn (source.splitOn '\n') (longer.splitOn '\n') →
          (ofSource mode longer).packets = (ofSource mode source).packets
            ∧ (ofSource mode longer).diagnostics.map Diagnostic.report
              = (ofSource mode source).diagnostics.map Diagnostic.report := by
  refine ⟨fun raw args => arguments_eq_ok_iff, ?_, ?_⟩
  · intro raw args extra h
    refine ⟨fun number => statement_append h number extra, fun opcode => ⟨?_, fun number => ?_⟩⟩
    · exact encode_append h opcode extra
    · exact encode_compact_append h opcode extra
  · intro mode source longer h
    -- the lines come to the same, and nothing else decides packets and reports
    have houtcomes := map_outcomeOf_of_goesOn h
    rw [ofSource_eq_ofLines, ofSource_eq_ofLines, map_report_diagnostics, map_report_diagnostics,
      houtcomes, ofLines_eq, ofLines_eq, houtcomes]
    exact ⟨rfl, rfl⟩

/-- A directive with blanks goes on with a list of its own, and a command that
    is refused goes on with the argument that it lacks. -/
theorem argument_lists_end_lines_of_second_list :
    HasArguments "Wait _us( 1 0 )".toList [" 1 0 ".toList]
      ∧ (Line.ofRaw 7 ("Wait _us( 1 0 )".toList ++ "(3), x)".toList)).statement
        = .ok (.wait 10)
      ∧ List.Forall₂ GoesOn ("Wait _us( 1 0 )\nHK_REQUEST(1,,2)".toList.splitOn '\n')
        ("Wait _us( 1 0 )(3), x)\nHK_REQUEST(1,,2),3,4,5)".toList.splitOn '\n')
      ∧ (ofSource .oneShot "Wait _us( 1 0 )(3), x)\nHK_REQUEST(1,,2),3,4,5)".toList).packets
        = (ofSource .oneShot "Wait _us( 1 0 )\nHK_REQUEST(1,,2)".toList).packets := by
  have hwait : HasArguments "Wait _us( 1 0 )".toList [" 1 0 ".toList] :=
    ⟨"Wait _us".toList, [], by decide, by decide, by decide, by decide⟩
  have hrequest : HasArguments "HK_REQUEST(1,,2)".toList ["1".toList, [], "2".toList] :=
    ⟨"HK_REQUEST".toList, [], by decide, by decide, by decide, by decide⟩
  have hlonger : List.Forall₂ GoesOn ("Wait _us( 1 0 )\nHK_REQUEST(1,,2)".toList.splitOn '\n')
      ("Wait _us( 1 0 )(3), x)\nHK_REQUEST(1,,2),3,4,5)".toList.splitOn '\n') :=
    .cons (.behind hwait "(3), x)".toList) (.cons (.behind hrequest ",3,4,5)".toList) .nil)
  refine ⟨hwait, ?_, hlonger, (argument_lists_end_lines.2.2 .oneShot _ _ hlonger).1⟩
  exact ((argument_lists_end_lines.2.1 _ _ "(3), x)".toList hwait).1 7).trans (by decide)

end Compilation

end Telecommand.Script
