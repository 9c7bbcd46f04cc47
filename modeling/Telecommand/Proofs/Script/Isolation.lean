import Telecommand.Proofs.Script.Account
import Telecommand.Proofs.Script.Delay

/-! # Faults stay where they are

    A line with a fault has no part in what the other lines come to.  Scripts
    with the same active lines have the same packets
    (`packets_eq_of_filter_isActive_eq`), so blank lines can take the place
    of the faulty ones, and more faulty lines can be put in anywhere: the
    script then has its own lines, moved, and those put in
    (`numbered_insertLines_perm`), and each of the latter has its diagnostic
    (`faults_are_isolated`). -/

namespace Telecommand.Script

open Text

/-! ## Lines with faults -/

/-- A line is rejected if it has a fault, whichever: an unknown keyword, a
    delay that is none, or arguments that do not encode. -/
def IsRejected (raw : Text) : Prop := ∃ fault, outcomeOf raw = .rejected fault

theorem IsRejected.not_isActive {raw : Text} (h : IsRejected raw) : isActive raw = false := by
  obtain ⟨fault, houtcome⟩ := h
  rw [isActive, houtcome]

theorem not_isActive_of_compact_eq_nil {raw : Text} (h : compact raw = []) :
    isActive raw = false := by
  rw [isActive, outcomeOf_of_compact_eq_nil h]

/-- Wherever a line that is rejected stands, it has a diagnostic. -/
theorem IsRejected.exists_diagnostic {raw : Text} (h : IsRejected raw) (number : Nat) :
    ∃ diagnostic, (Line.ofRaw number raw).diagnostic? = some diagnostic := by
  obtain ⟨fault, houtcome⟩ := h
  refine ⟨(Line.ofRaw number raw).diagnostic fault, ?_⟩
  rw [Line.diagnostic?, outcome_ofRaw, houtcome]
  rfl

/-- The packets of a script are those of its active lines. -/
theorem Compilation.packets_eq_of_filter_isActive_eq (mode : DelayMode) {raws others : List Text}
    (h : others.filter isActive = raws.filter isActive) :
    (ofLines mode others).packets = (ofLines mode raws).packets := by
  rw [ofLines_eq, ofLines_eq]
  show emissions mode 0 (others.map outcomeOf) = emissions mode 0 (raws.map outcomeOf)
  rw [← emissions_filter_isActive mode 0 others, h, emissions_filter_isActive]

/-! ## Other lines in place of some -/

/-- The lines of a script, with others in place of those that have certain
    numbers. -/
def replaceLines (blanks : Nat → Text) (numbers : List Nat) (raws : List Text) : List Text :=
  (raws.zipIdx 1).map fun (raw, number) => if number ∈ numbers then blanks number else raw

section Replace

variable {blanks : Nat → Text} {numbers : List Nat} {raws : List Text}

theorem getElem?_replaceLines (i : Nat) :
    (replaceLines blanks numbers raws)[i]?
      = raws[i]?.map fun raw => if i + 1 ∈ numbers then blanks (i + 1) else raw := by
  rw [replaceLines, List.getElem?_map, List.getElem?_zipIdx, Option.map_map, Nat.add_comm 1 i]
  rfl

theorem replaceLines_concat (front : List Text) (raw : Text) :
    replaceLines blanks numbers (front ++ [raw])
      = replaceLines blanks numbers front
        ++ [if front.length + 1 ∈ numbers then blanks (front.length + 1) else raw] := by
  rw [replaceLines, List.zipIdx_append, List.map_append, Nat.add_comm 1]
  rfl

/-- The active lines stay, if none of them is replaced and what takes the
    place of the others is not active. -/
theorem filter_isActive_replaceLines (hblanks : ∀ number, isActive (blanks number) = false)
    (hnumbers : ∀ i raw, raws[i]? = some raw → i + 1 ∈ numbers → isActive raw = false) :
    (replaceLines blanks numbers raws).filter isActive = raws.filter isActive := by
  induction raws using List.reverseRecOn with
  | nil => rfl
  | append_singleton front raw ih =>
      have hfront : (replaceLines blanks numbers front).filter isActive
          = front.filter isActive := by
        refine ih ?_
        intro i other hother hnumber
        have hi : i < front.length := (List.getElem?_eq_some_iff.mp hother).1
        refine hnumbers i other ?_ hnumber
        rw [List.getElem?_append_left hi]
        exact hother
      rw [replaceLines_concat, List.filter_append, List.filter_append, hfront]
      by_cases hmem : front.length + 1 ∈ numbers
      · have hraw := hnumbers front.length raw List.getElem?_concat_length hmem
        rw [if_pos hmem, List.filter_cons, List.filter_cons, hblanks, hraw]
        rfl
      · rw [if_neg hmem]

end Replace

namespace Compilation

variable {mode : DelayMode} {raws : List Text}

/-- The lines that the diagnostics name are the rejected ones. -/
theorem mem_map_line_iff {i : Nat} {raw : Text} (h : raws[i]? = some raw) :
    i + 1 ∈ (ofLines mode raws).diagnostics.map Diagnostic.line ↔ IsRejected raw := by
  rw [List.mem_map]
  constructor
  · rintro ⟨diagnostic, hmem, hline⟩
    obtain ⟨j, other, hother, houtcome, hnumber, -⟩ := mem_diagnostics_iff.mp hmem
    obtain rfl : i = j := by omega
    obtain rfl : raw = other := Option.some.inj (h.symm.trans hother)
    exact ⟨diagnostic.fault, houtcome⟩
  · rintro ⟨fault, houtcome⟩
    exact ⟨⟨i + 1, compact raw, fault⟩,
      mem_diagnostics_iff.mpr ⟨i, raw, h, houtcome, rfl, rfl⟩, rfl⟩

/-- Blank lines in place of those that the diagnostics name keep the packets,
    and no diagnostic is left. -/
theorem ofLines_replaceLines {blanks : Nat → Text}
    (hblanks : ∀ number, compact (blanks number) = []) :
    ofLines mode
        (replaceLines blanks ((ofLines mode raws).diagnostics.map Diagnostic.line) raws)
      = ⟨(ofLines mode raws).packets, []⟩ := by
  generalize hnumbers : (ofLines mode raws).diagnostics.map Diagnostic.line = numbers
  have hpackets : (ofLines mode (replaceLines blanks numbers raws)).packets
      = (ofLines mode raws).packets := by
    refine packets_eq_of_filter_isActive_eq mode (filter_isActive_replaceLines ?_ ?_)
    · intro number
      exact not_isActive_of_compact_eq_nil (hblanks number)
    · intro i raw hraw hnumber
      rw [← hnumbers, mem_map_line_iff hraw] at hnumber
      exact hnumber.not_isActive
  have hdiagnostics : (ofLines mode (replaceLines blanks numbers raws)).diagnostics = [] := by
    refine List.eq_nil_iff_forall_not_mem.mpr ?_
    intro diagnostic hmem
    obtain ⟨i, other, hother, houtcome, -⟩ := mem_diagnostics_iff.mp hmem
    rw [getElem?_replaceLines, Option.map_eq_some_iff] at hother
    obtain ⟨raw, hraw, hother⟩ := hother
    by_cases hnumber : i + 1 ∈ numbers
    · rw [if_pos hnumber] at hother
      rw [← hother, outcomeOf_of_compact_eq_nil (hblanks (i + 1))] at houtcome
      cases houtcome
    · -- a rejected line that is not replaced would have its number among those
      rw [if_neg hnumber] at hother
      rw [← hnumbers, mem_map_line_iff hraw, hother] at hnumber
      exact hnumber ⟨diagnostic.fault, houtcome⟩
  rw [← hpackets, ← hdiagnostics]

end Compilation

/-! ## Lines put in -/

/-- The lines of a script with others put in: `added i` behind the first `i`
    of them. -/
def insertLines (added : Nat → List Text) (raws : List Text) : List Text :=
  added 0 ++ raws.zipIdx.flatMap fun (raw, i) => raw :: added (i + 1)

/-- How many lines are put in before the line with a number. -/
def addedBefore (added : Nat → List Text) (number : Nat) : Nat :=
  ((List.range number).flatMap added).length

/-- Lines numbered from a start, as those of a script are from one. -/
def numberedFrom (start : Nat) (raws : List Text) : List Line :=
  (raws.zipIdx start).map fun (raw, number) => Line.ofRaw number raw

/-- The lines put in, with the numbers that they get. -/
def addedLines (added : Nat → List Text) (count : Nat) : List Line :=
  (List.range (count + 1)).flatMap fun i => numberedFrom (i + addedBefore added i + 1) (added i)

/-- A line behind those that are put in before it. -/
def Line.moved (added : Nat → List Text) (line : Line) : Line :=
  { line with number := line.number + addedBefore added line.number }

/-- A diagnostic of a line behind those that are put in before it. -/
def Diagnostic.moved (added : Nat → List Text) (diagnostic : Diagnostic) : Diagnostic :=
  { diagnostic with line := diagnostic.line + addedBefore added diagnostic.line }

section Insert

variable {added : Nat → List Text}

theorem insertLines_concat (front : List Text) (raw : Text) :
    insertLines added (front ++ [raw])
      = insertLines added front ++ raw :: added (front.length + 1) := by
  rw [insertLines, List.zipIdx_append, List.flatMap_append, ← List.append_assoc, Nat.zero_add]
  show insertLines added front ++ ((raw :: added (front.length + 1)) ++ []) = _
  rw [List.append_nil]

theorem addedBefore_succ (number : Nat) :
    addedBefore added (number + 1) = addedBefore added number + (added number).length := by
  rw [addedBefore, List.range_succ, List.flatMap_append, List.length_append,
    List.flatMap_singleton]
  rfl

theorem length_insertLines (raws : List Text) :
    (insertLines added raws).length = raws.length + addedBefore added (raws.length + 1) := by
  induction raws using List.reverseRecOn with
  | nil => simp [insertLines, addedBefore]
  | append_singleton front raw ih =>
      rw [insertLines_concat, List.length_append, ih, List.length_append, List.length_cons,
        List.length_singleton, addedBefore_succ (front.length + 1)]
      omega

theorem addedLines_succ (count : Nat) :
    addedLines added (count + 1)
      = addedLines added count
        ++ numberedFrom (count + 1 + addedBefore added (count + 1) + 1) (added (count + 1)) := by
  rw [addedLines, List.range_succ, List.flatMap_append, List.flatMap_singleton]
  rfl

theorem numbered_append (front back : List Text) :
    numbered (front ++ back) = numbered front ++ numberedFrom (front.length + 1) back := by
  rw [numbered, List.zipIdx_append, List.map_append, Nat.add_comm 1]
  rfl

theorem numberedFrom_cons (start : Nat) (raw : Text) (rest : List Text) :
    numberedFrom start (raw :: rest) = Line.ofRaw start raw :: numberedFrom (start + 1) rest :=
  rfl

/-- **The lines of a script with others put in.**  They are its own, each
    moved behind those put in before it, and those put in. -/
theorem numbered_insertLines_perm (raws : List Text) :
    (numbered (insertLines added raws)).Perm
      ((numbered raws).map (Line.moved added) ++ addedLines added raws.length) := by
  induction raws using List.reverseRecOn with
  | nil =>
      have hinsert : insertLines added [] = added 0 := List.append_nil (added 0)
      have hadded : addedLines added 0 = numbered (added 0) := List.append_nil _
      rw [List.length_nil, hinsert, hadded]
      exact .refl _
  | append_singleton front raw ih =>
      have hlength : (insertLines added front).length + 1
          = front.length + 1 + addedBefore added (front.length + 1) := by
        rw [length_insertLines]
        omega
      rw [insertLines_concat, numbered_append, numbered_append, hlength, List.length_append,
        List.length_singleton, addedLines_succ, List.map_append, numberedFrom_cons]
      refine (ih.append_right _).trans ?_
      -- the line itself goes to the end of the own lines, past those put in before it
      rw [List.append_assoc, List.append_assoc]
      exact List.perm_middle.append_left _

/-- Lines put in that are not active leave the active lines. -/
theorem filter_isActive_insertLines (hadded : ∀ i, ∀ raw ∈ added i, isActive raw = false)
    (raws : List Text) : (insertLines added raws).filter isActive = raws.filter isActive := by
  have hnone (i : Nat) : (added i).filter isActive = [] := by
    refine List.filter_eq_nil_iff.mpr ?_
    intro raw hmem
    rw [hadded i raw hmem]
    exact Bool.false_ne_true
  induction raws using List.reverseRecOn with
  | nil =>
      show (added 0 ++ []).filter isActive = []
      rw [List.append_nil, hnone]
  | append_singleton front raw ih =>
      rw [insertLines_concat, List.filter_append, ih, List.filter_append, List.filter_cons,
        List.filter_cons, hnone, List.filter_nil]

/-- The diagnostics are those of the script, moved with their lines, and those
    of the lines put in. -/
theorem diagnostics_insertLines_perm (raws : List Text) :
    ((numbered (insertLines added raws)).filterMap Line.diagnostic?).Perm
      (((numbered raws).filterMap Line.diagnostic?).map (Diagnostic.moved added)
        ++ (addedLines added raws.length).filterMap Line.diagnostic?) := by
  have hmoved : ((numbered raws).map (Line.moved added)).filterMap Line.diagnostic?
      = ((numbered raws).filterMap Line.diagnostic?).map (Diagnostic.moved added) := by
    rw [List.filterMap_map, List.map_filterMap]
    exact List.filterMap_congr fun line _ =>
      line.diagnostic?_renumbered fun number => number + addedBefore added number
  rw [← hmoved, ← List.filterMap_append]
  exact (numbered_insertLines_perm raws).filterMap Line.diagnostic?

/-- Rejected lines that are put in have a diagnostic each. -/
theorem map_diagnostic?_addedLines (hadded : ∀ i, ∀ raw ∈ added i, IsRejected raw)
    (count : Nat) :
    (addedLines added count).map Line.diagnostic?
      = ((addedLines added count).filterMap Line.diagnostic?).map some := by
  have hsome : ∀ found ∈ (addedLines added count).map Line.diagnostic?, found.isSome = true := by
    intro found hfound
    obtain ⟨line, hline, rfl⟩ := List.mem_map.mp hfound
    obtain ⟨i, -, hmem⟩ := List.mem_flatMap.mp hline
    obtain ⟨⟨raw, number⟩, hentry, rfl⟩ := List.mem_map.mp hmem
    have hraw : raw ∈ added i := List.fst_mem_of_mem_zipIdx hentry
    obtain ⟨diagnostic, hdiagnostic⟩ := (hadded i raw hraw).exists_diagnostic number
    rw [hdiagnostic]
    rfl
  rw [List.map_filterMap_some_eq_filter_map_isSome]
  exact (List.filter_eq_self.mpr hsome).symm

end Insert

/-- What a compilation gains from lines that are put into its script, where
    they do not touch the others. -/
structure Compilation.Gains (whole own : Compilation) (added : Nat → List Text) (count : Nat) :
    Prop where
  /-- The packets stay, with their delays. -/
  packets : whole.packets = own.packets
  /-- The diagnostics are in the order of their lines. -/
  ordered : whole.diagnostics.Pairwise fun first second => first.line < second.line
  /-- They are the own ones, each with the number of its line moved by as many
      lines as are put in before it, and one for each line put in. -/
  diagnostics : ∃ fresh, (addedLines added count).map Line.diagnostic? = fresh.map some
    ∧ whole.diagnostics.Perm (own.diagnostics.map (Diagnostic.moved added) ++ fresh)

theorem Compilation.gains_of_rejected (mode : DelayMode) (raws : List Text)
    {added : Nat → List Text} (hadded : ∀ i, ∀ raw ∈ added i, IsRejected raw) :
    (ofLines mode (insertLines added raws)).Gains (ofLines mode raws) added raws.length := by
  have hpackets : (ofLines mode (insertLines added raws)).packets
      = (ofLines mode raws).packets := by
    refine packets_eq_of_filter_isActive_eq mode (filter_isActive_insertLines ?_ raws)
    intro i raw hmem
    exact (hadded i raw hmem).not_isActive
  refine ⟨hpackets, pairwise_diagnostics, _, map_diagnostic?_addedLines hadded raws.length, ?_⟩
  rw [ofLines_eq, ofLines_eq]
  exact diagnostics_insertLines_perm raws

/-- **Faults stay where they are.**  In either delay mode, blank lines in
    place of those that the diagnostics name keep the packets of a script and
    leave no diagnostic; and rejected lines that are put in anywhere keep the
    packets, and add one diagnostic each. -/
theorem Compilation.faults_are_isolated (mode : DelayMode) (raws : List Text) :
    (∀ blanks : Nat → Text, (∀ number, compact (blanks number) = []) →
        ofLines mode
            (replaceLines blanks ((ofLines mode raws).diagnostics.map Diagnostic.line) raws)
          = ⟨(ofLines mode raws).packets, []⟩)
      ∧ ∀ added : Nat → List Text, (∀ i, ∀ raw ∈ added i, IsRejected raw) →
          (ofLines mode (insertLines added raws)).Gains (ofLines mode raws) added raws.length := by
  constructor
  · intro blanks hblanks
    exact ofLines_replaceLines hblanks
  · intro added hadded
    exact gains_of_rejected mode raws hadded

/-- A script where a delay waits past a line with a fault. -/
def waitingScript : List Text :=
  ["Wait_us(5)", "FLASH_DUMP(x0)", "POWER_OFF(0,1,2,3,4,xff)", "nap(", "GET_STATUS(0,0,0,0,0,0)"]

/-- Lines with a fault of each kind: in front of the delay, past it, and at
    the end. -/
def strayLines : Nat → List Text
  | 0 => ["Wait_us(-1)"]
  | 1 => ["Send_(0)", "SET_TIME(1,2)"]
  | 5 => ["Send_Wait_us(9)"]
  | _ => []

/-- The delay reaches its packet, with blanks in place of the faulty lines and
    with more of these put in. -/
theorem Compilation.faults_are_isolated_of_waiting_delay :
    ofLines .oneShot
          (replaceLines (fun _ => " \t")
            ((ofLines .oneShot waitingScript).diagnostics.map Diagnostic.line) waitingScript)
        = ⟨[⟨5, ⟨.powerOff, .ofBytes [0, 1, 2, 3, 4, 255]⟩⟩, ⟨0, ⟨.getStatus, .ofBytes [0]⟩⟩], []⟩
      ∧ (∀ i, ∀ raw ∈ strayLines i, IsRejected raw)
      ∧ (ofLines .oneShot (insertLines strayLines waitingScript)).Gains
          (ofLines .oneShot waitingScript) strayLines 5 := by
  have hpackets : (ofLines .oneShot waitingScript).packets
      = [⟨5, ⟨.powerOff, .ofBytes [0, 1, 2, 3, 4, 255]⟩⟩, ⟨0, ⟨.getStatus, .ofBytes [0]⟩⟩] := by
    decide
  have hadded : ∀ i, ∀ raw ∈ strayLines i, IsRejected raw := by
    intro i raw hmem
    rw [strayLines.eq_def] at hmem
    split at hmem
    · rw [List.mem_singleton] at hmem
      exact ⟨.badDelay, by rw [hmem]; decide⟩
    · rcases List.mem_pair.mp hmem with rfl | rfl
      · exact ⟨.unknownKeyword "Send_", by decide⟩
      · exact ⟨.refused (.wrongArgumentCount 6 2), by decide⟩
    · rw [List.mem_singleton] at hmem
      exact ⟨.unknownKeyword "Send_Wait_us", by rw [hmem]; decide⟩
    · cases hmem
  obtain ⟨hreplaced, hinserted⟩ := faults_are_isolated .oneShot waitingScript
  rw [← hpackets]
  exact ⟨hreplaced _ fun _ => rfl, hadded, hinserted strayLines hadded⟩

end Telecommand.Script
