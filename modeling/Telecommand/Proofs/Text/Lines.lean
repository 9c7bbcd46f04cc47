import Telecommand.Proofs.Basic
import Telecommand.Stimulus.Reader
import Telecommand.Text.Blank

/-! # Lines, written and read

    A text of ended lines splits into exactly these lines, and a script
    reads the same lines as long as none of them ends in a carriage return.
    Reading such a text item by item inverts writing it item by item
    (`readLines?_eq_some_iff`), for every item format that can be read back.

    Blanks other than line feeds do not move line feeds: removing them
    commutes with the division into lines (`splitOn_squeeze`). -/

namespace Telecommand.Text

/-! ## Ended lines -/

/-- Lines that hold no line feed come back from the text that ends each of
    them with one; the last piece is what follows the last line feed. -/
theorem splitOn_ended {lines : List Text} (h : ∀ line ∈ lines, '\n' ∉ line) :
    (lines.flatMap (· ++ ['\n'])).splitOn '\n' = lines ++ [[]] := by
  induction lines with
  | nil => rfl
  | cons line rest ih =>
      have hrest := ih fun l hl => h l (List.mem_cons_of_mem line hl)
      rw [List.flatMap_cons, List.append_assoc]
      -- the line feed that ends the first line is the first one of the text
      show (line ++ '\n' :: rest.flatMap (· ++ ['\n'])).splitOn '\n' = _
      rw [List.splitOn_append_cons_self_of_not_mem (h line List.mem_cons_self), hrest]
      rfl

/-- A script of ended lines has exactly these lines. -/
theorem lines_ended {lines : List Text}
    (h : ∀ line ∈ lines, '\n' ∉ line ∧ line.getLast? ≠ some '\r') :
    Text.lines (lines.flatMap (· ++ ['\n'])) = lines := by
  -- no line loses its last character, for none ends in a carriage return
  have hchop : lines.map chopReturn = lines.map id := by
    refine List.map_congr_left ?_
    intro line hline
    rw [chopReturn, if_neg (h line hline).2]
    rfl
  rw [Text.lines, splitOn_ended fun line hline => (h line hline).1]
  simp [hchop]

/-! ## Blanks and lines -/

/-- A text without its blanks, line feeds apart. -/
def squeeze (text : Text) : Text :=
  text.filter fun c => c = '\n' || !isBlank c

/-- Removing the blanks that are no line feeds removes all blanks of every
    line, and divides the text into lines as before. -/
theorem splitOn_squeeze (text : Text) :
    (squeeze text).splitOn '\n' = (text.splitOn '\n').map compact := by
  induction text with
  | nil => rfl
  | cons c rest ih =>
      by_cases hc : c = '\n'
      · -- a line feed ends the first piece on both sides
        have hkeep : squeeze (c :: rest) = c :: squeeze rest := by
          simp [squeeze, hc]
        rw [hkeep, List.splitOn_cons_eq_if_modifyHead, List.splitOn_cons_eq_if_modifyHead, ih]
        simp [hc]
      · -- any other character joins the first piece, or is dropped from both sides
        obtain ⟨first, others, hs⟩ := List.exists_cons_of_ne_nil
          (List.splitOn_ne_nil '\n' rest)
        rw [hs, List.map_cons] at ih
        rw [List.splitOn_cons_eq_if_modifyHead c rest, if_neg (by simpa using hc), hs,
          List.modifyHead_cons, List.map_cons]
        cases hb : isBlank c with
        | true =>
            have hdrop : squeeze (c :: rest) = squeeze rest := by
              simp [squeeze, hc, hb]
            have hfirst : compact (c :: first) = compact first := by
              simp [compact, hb]
            rw [hdrop, ih, hfirst]
        | false =>
            have hkeep : squeeze (c :: rest) = c :: squeeze rest := by
              simp [squeeze, hc, hb]
            have hfirst : compact (c :: first) = c :: compact first := by
              simp [compact, hb]
            rw [hkeep, List.splitOn_cons_eq_if_modifyHead, if_neg (by simpa using hc), ih,
              hfirst, List.modifyHead_cons]

/-- A carriage return is a blank, so it does not matter whether the end of a
    line takes one away. -/
theorem compact_chopReturn (line : Text) : compact (chopReturn line) = compact line := by
  rw [chopReturn]
  by_cases h : line.getLast? = some '\r'
  · obtain ⟨front, rfl⟩ := List.getLast?_eq_some_iff.mp h
    rw [if_pos h, List.dropLast_concat, compact_append]
    show compact front = compact front ++ []
    rw [List.append_nil]
  · rw [if_neg h]

theorem compact_eq_self_iff {text : Text} :
    compact text = text ↔ ∀ c ∈ text, isBlank c = false := by
  rw [compact, List.filter_eq_self]
  exact forall₂_congr fun c _ => by rw [Bool.not_eq_true']

end Telecommand.Text

namespace Telecommand.Stimulus

/-- A text has ended lines when it is what ends each of them with a line
    feed. -/
theorem endedLines?_eq_some_iff {text : Text} {lines : List Text} :
    endedLines? text = some lines
      ↔ (∀ line ∈ lines, '\n' ∉ line) ∧ lines.flatMap (· ++ ['\n']) = text := by
  constructor
  · intro h
    simp only [endedLines?, Option.ite_none_right_eq_some, Option.some.injEq] at h
    obtain ⟨hlast, rfl⟩ := h
    -- the last piece is empty, so what is joined again is the ended lines
    have hpieces : (text.splitOn '\n').dropLast ++ [[]] = text.splitOn '\n' := by
      obtain ⟨front, hfront⟩ := List.getLast?_eq_some_iff.mp hlast
      rw [hfront, List.dropLast_concat]
    refine ⟨fun line hline => Text.notMem_of_mem_splitOn
      ((List.dropLast_sublist _).subset hline), ?_⟩
    have hjoin := Text.intercalate_concat '\n' (text.splitOn '\n').dropLast []
    rw [hpieces, List.intercalate_splitOn, List.append_nil] at hjoin
    exact hjoin.symm
  · rintro ⟨hlines, rfl⟩
    simp [endedLines?, Text.splitOn_ended hlines]

variable {α : Type}

/-- Reading every line of a list inverts writing every item, if reading one
    line inverts writing one item. -/
theorem mapM_eq_some_iff {read : Text → Option α} {write : α → Text}
    (h : ∀ line item, read line = some item ↔ write item = line)
    {lines : List Text} {items : List α} :
    lines.mapM read = some items ↔ items.map write = lines := by
  induction lines generalizing items with
  | nil => simp [eq_comm]
  | cons line rest ih =>
      rw [List.mapM_cons]
      constructor
      · intro hread
        simp only [Option.bind_eq_bind, Option.pure_def, Option.bind_eq_some_iff,
          Option.some.injEq] at hread
        obtain ⟨item, hitem, others, hothers, rfl⟩ := hread
        rw [List.map_cons, (h line item).mp hitem, ih.mp hothers]
      · intro hwrite
        obtain ⟨item, others, rfl, hitem, hothers⟩ := List.map_eq_cons_iff.mp hwrite
        simp [(h line item).mpr hitem, ih.mpr hothers]

/-- Items that are written without line feeds, each on a line of its own, have
    these lines. -/
theorem endedLines?_flatMap {write : α → Text} (hwrite : ∀ item, '\n' ∉ write item)
    (items : List α) :
    endedLines? (items.flatMap fun item => write item ++ ['\n']) = some (items.map write) := by
  have hlines : ∀ line ∈ items.map write, '\n' ∉ line := by
    intro line hline
    obtain ⟨item, -, rfl⟩ := List.mem_map.mp hline
    exact hwrite item
  exact endedLines?_eq_some_iff.mpr ⟨hlines, List.flatMap_map write (· ++ ['\n']) items⟩

/-- Reading a text line by line inverts writing its items line by line, if
    reading one line inverts writing one item and no written item holds a
    line feed. -/
theorem readLines?_eq_some_iff {read : Text → Option α} {write : α → Text}
    (h : ∀ line item, read line = some item ↔ write item = line)
    (hwrite : ∀ item, '\n' ∉ write item) {text : Text} {items : List α} :
    readLines? read text = some items
      ↔ items.flatMap (fun item => write item ++ ['\n']) = text := by
  constructor
  · intro hread
    obtain ⟨lines, hlines, hitems⟩ := Option.bind_eq_some_iff.mp hread
    rw [← (endedLines?_eq_some_iff.mp hlines).2, ← (mapM_eq_some_iff h).mp hitems,
      List.flatMap_map]
  · rintro rfl
    exact Option.bind_eq_some_iff.mpr
      ⟨items.map write, endedLines?_flatMap hwrite items, (mapM_eq_some_iff h).mpr rfl⟩

end Telecommand.Stimulus
