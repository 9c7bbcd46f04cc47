import Telecommand.Proofs.Script.Expressible
import Telecommand.Proofs.Script.Isolation

/-! # Sources in two parts

    A source that is cut at a line feed compiles part by part
    (`ofSource_append_lineFeed`).  All that the second part has from the first
    is the delay that waits between them, and a directive for this delay in
    front of the second part says as much.  The lines of the second part are
    counted on from those of the first, one for each line feed up to the
    cut. -/

namespace Telecommand.Script

open Text

/-! ## What the first part leaves -/

/-- The delay that waits when the lines of a source have been read. -/
def delayAfter (mode : DelayMode) (source : Text) : UInt64 :=
  ((Session.start mode).processAll (numbered source.lines)).1.delay

/-- A raw line comes to what it comes to without its blanks. -/
theorem outcomeOf_compact (raw : Text) : outcomeOf (compact raw) = outcomeOf raw := by
  rw [outcomeOf, Line.ofRaw_compact, outcomeOf]

/-- The delay that waits is the one that the pieces between the line feeds
    leave: an empty piece at the end, which is no line, leaves what it
    finds. -/
theorem delayAfter_eq (mode : DelayMode) (source : Text) :
    delayAfter mode source = ((source.splitOn '\n').map outcomeOf).foldl mode.after 0 := by
  have houtcomes (raws : List Text) : (raws.map compact).map outcomeOf = raws.map outcomeOf := by
    rw [List.map_map]
    exact List.map_congr_left fun raw _ => outcomeOf_compact raw
  obtain ⟨tail, htail, hpieces⟩ := map_compact_splitOn source
  have hsplit : (source.splitOn '\n').map outcomeOf
      = source.lines.map outcomeOf ++ tail.map outcomeOf := by
    rw [← houtcomes, hpieces, List.map_append, houtcomes]
  have hlines : delayAfter mode source = (source.lines.map outcomeOf).foldl mode.after 0 := by
    rw [delayAfter, Session.processAll_eq, map_outcome_numbered]
    rfl
  rw [hlines, hsplit, List.foldl_append]
  rcases htail with rfl | rfl
  · rfl
  · rfl

/-! ## Where the second part stands -/

/-- A diagnostic of a line that stands behind a number of others. -/
def Diagnostic.behind (count : Nat) (diagnostic : Diagnostic) : Diagnostic :=
  { diagnostic with line := diagnostic.line + count }

/-- Lines that stand behind others have their own diagnostics, counted on. -/
theorem filterMap_diagnostic?_numberedFrom (count : Nat) (raws : List Text) :
    (numberedFrom (count + 1) raws).filterMap Line.diagnostic?
      = ((numbered raws).filterMap Line.diagnostic?).map (Diagnostic.behind count) := by
  have hlines : numberedFrom (count + 1) raws
      = (numbered raws).map fun line => { line with number := line.number + count } := by
    rw [numberedFrom, numbered, ← List.map_snd_add_zipIdx_eq_zipIdx, List.map_map, List.map_map]
    refine List.map_congr_left ?_
    rintro ⟨raw, number⟩ -
    rfl
  rw [hlines, List.filterMap_map, List.map_filterMap]
  exact List.filterMap_congr fun line _ => line.diagnostic?_renumbered (· + count)

namespace Compilation

/-! ## Both parts -/

/-- Behind a directive a source sends what its pieces send while this delay
    waits. -/
theorem packets_ofSource_directive (mode : DelayMode) (waiting : UInt64) (source : Text) :
    (ofSource mode (directive waiting ++ '\n' :: source)).packets
      = emissions mode waiting ((source.splitOn '\n').map outcomeOf) := by
  have hline : '\n' ∉ directive waiting := (notMem_of_bare (bare_directive waiting)).1
  rw [ofSource_eq_ofLines, List.splitOn_append_cons_self_of_not_mem hline, ofLines_eq,
    List.map_cons, outcomeOf_directive]
  rfl

/-- **Sources compile part by part.**  In either delay mode, a source that has
    a line feed between two parts sends the packets of the first part, and then
    those of the second part behind a directive for the delay that waits
    there.  It has the diagnostics of the first part, and then those of the
    second, which are counted on by the lines that end up to there. -/
theorem ofSource_append_lineFeed (mode : DelayMode) (front back : Text) :
    (ofSource mode (front ++ '\n' :: back)).packets
        = (ofSource mode front).packets
          ++ (ofSource mode (directive (delayAfter mode front) ++ '\n' :: back)).packets
      ∧ (ofSource mode (front ++ '\n' :: back)).diagnostics
        = (ofSource mode front).diagnostics
          ++ (ofSource mode back).diagnostics.map
              (Diagnostic.behind (front.count '\n' + 1)) := by
  have hpieces : (front ++ '\n' :: back).splitOn '\n'
      = front.splitOn '\n' ++ back.splitOn '\n' :=
    List.splitOn_append_cons_self front back
  constructor
  · rw [packets_ofSource_directive, delayAfter_eq, ofSource_eq_ofLines, ofSource_eq_ofLines,
      ofLines_eq, ofLines_eq, hpieces, List.map_append]
    exact emissions_append 0 _ _
  · rw [ofSource_eq_ofLines, ofSource_eq_ofLines, ofSource_eq_ofLines, ofLines_eq, ofLines_eq,
      ofLines_eq, hpieces, ← length_splitOn]
    show (numbered (front.splitOn '\n' ++ back.splitOn '\n')).filterMap Line.diagnostic? = _
    rw [numbered_append, List.filterMap_append, filterMap_diagnostic?_numberedFrom]

end Compilation

end Telecommand.Script
