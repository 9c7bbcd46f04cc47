import Telecommand.Proofs.Script.Outcome
import Telecommand.Proofs.Text.Lines

/-! # Blanks in scripts

    Blanks do not matter, line feeds apart: two sources that differ in other
    blanks only have one compilation (`ofSource_eq_of_squeeze_eq`).  A line
    is decided by its text without blanks, also whether it is a comment; the
    carriage return at the end of a line is a blank; and what follows the
    last line feed is a silent line if it holds blanks alone. -/

namespace Telecommand.Script

open Text

/-- Raw texts that agree without blanks stand for one line. -/
theorem Line.ofRaw_compact (number : Nat) (raw : Text) :
    Line.ofRaw number (compact raw) = Line.ofRaw number raw := by
  have hstart : (trimStart (compact raw)).head? = (trimStart raw).head? := by
    rw [← head?_compact, compact_compact, head?_compact]
  rw [ofRaw, ofRaw, compact_compact, hstart]

/-- Parentheses are not blank: they still stand around what is between them. -/
theorem compact_call (front inner back : Text) :
    compact (front ++ '(' :: inner ++ ')' :: back)
      = compact front ++ '(' :: compact inner ++ ')' :: compact back := by
  have hopen : compact ('(' :: inner) = '(' :: compact inner := rfl
  have hclose : compact (')' :: back) = ')' :: compact back := rfl
  rw [compact_append, compact_append, hopen, hclose]

/-- The pieces between the line feeds of a source are its lines, blanks apart.
    Where no line follows the last line feed, the pieces have an empty one
    more. -/
theorem map_compact_splitOn (source : Text) :
    ∃ tail, (tail = [] ∨ tail = [[]])
      ∧ (source.splitOn '\n').map compact = source.lines.map compact ++ tail := by
  obtain ⟨front, last, hsplit⟩ : ∃ front last, source.splitOn '\n' = front ++ [last] :=
    ⟨_, _, (List.dropLast_concat_getLast (List.splitOn_ne_nil '\n' source)).symm⟩
  have hlines : source.lines = front.map chopReturn ++ [last].filter (· ≠ []) := by
    rw [Text.lines, hsplit, List.dropLast_concat, List.getLast?_concat]
    rfl
  have hchop : (front.map chopReturn).map compact = front.map compact := by
    rw [List.map_map]
    exact List.map_congr_left fun line _ => compact_chopReturn line
  rw [hlines, hsplit, List.map_append, List.map_append, hchop]
  by_cases hlast : last = []
  · refine ⟨[[]], .inr rfl, ?_⟩
    rw [hlast, List.append_assoc]
    rfl
  · refine ⟨[], .inl rfl, ?_⟩
    rw [List.filter_cons_of_pos (by simpa using hlast), List.append_nil]
    rfl

theorem numbered_map_compact (raws : List Text) :
    numbered (raws.map compact) = numbered raws := by
  rw [numbered, numbered, List.zipIdx_map, List.map_map]
  refine List.map_congr_left ?_
  rintro ⟨raw, number⟩ _
  exact Line.ofRaw_compact number raw

theorem outcomeOf_of_compact_eq_nil {raw : Text} (h : compact raw = []) :
    outcomeOf raw = .skipped := by
  have hline : Line.ofRaw 1 raw = Line.ofRaw 1 [] := by
    rw [← Line.ofRaw_compact, h]
  rw [outcomeOf, hline]
  rfl

namespace Compilation

/-- Only what is not blank in its lines decides a compilation. -/
theorem ofLines_map_compact (mode : DelayMode) (raws : List Text) :
    ofLines mode (raws.map compact) = ofLines mode raws := by
  rw [ofLines, ofLines, traced, traced, numbered_map_compact]

theorem ofLines_concat_blank (mode : DelayMode) (raws : List Text) {raw : Text}
    (h : compact raw = []) : ofLines mode (raws ++ [raw]) = ofLines mode raws := by
  have hsilent := outcomeOf_of_compact_eq_nil h
  have hnone (number : Nat) : (Line.ofRaw number raw).diagnostic? = none := by
    rw [Line.diagnostic?, outcome_ofRaw, hsilent]
    rfl
  rw [ofLines_eq, ofLines_eq, List.map_append, emissions_append, List.map_singleton, hsilent,
    numbered, List.zipIdx_append, List.map_append, List.filterMap_append]
  simp [emissions, Outcome.timed?, Outcome.packet?, hnone, numbered]

/-- A source compiles like the pieces between its line feeds, without their
    blanks. -/
theorem ofSource_eq (mode : DelayMode) (source : Text) :
    ofSource mode source = ofLines mode ((source.splitOn '\n').map compact) := by
  obtain ⟨tail, htail, hpieces⟩ := map_compact_splitOn source
  rw [ofSource, hpieces, ← ofLines_map_compact]
  rcases htail with rfl | rfl
  · rw [List.append_nil]
  · rw [ofLines_concat_blank mode _ rfl]

theorem ofSource_eq_ofLines (mode : DelayMode) (source : Text) :
    ofSource mode source = ofLines mode (source.splitOn '\n') := by
  rw [ofSource_eq, ofLines_map_compact]

/-- **Blanks do not matter.**  Sources that agree once every blank but the
    line feed is removed have one compilation, in either delay mode: the same
    packets, and the same diagnostics on the same lines. -/
theorem ofSource_eq_of_squeeze_eq {first second : Text} (h : squeeze first = squeeze second)
    (mode : DelayMode) : ofSource mode first = ofSource mode second := by
  rw [ofSource_eq, ofSource_eq, ← splitOn_squeeze, ← splitOn_squeeze, h]

/-- An indented comment, a carriage return before a line feed, blanks inside
    a keyword and a number, and a blank last line. -/
theorem ofSource_of_spread :
    squeeze "\t# on\r\n Wait _us( 1 0 )\r\nSet(\n \u3000".toList
        = squeeze "#on\nWait_us(10)\nSet(\n".toList
      ∧ ofSource .oneShot "\t# on\r\n Wait _us( 1 0 )\r\nSet(\n \u3000".toList
          = ofSource .oneShot "#on\nWait_us(10)\nSet(\n".toList :=
  ⟨by decide, ofSource_eq_of_squeeze_eq (by decide) .oneShot⟩

end Compilation

end Telecommand.Script
