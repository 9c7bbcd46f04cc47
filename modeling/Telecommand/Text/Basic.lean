/-! # Text and its lines

    Scripts, arguments and messages are lists of characters, so every
    function on them is a recursion on the text itself.  This module fixes
    the type, the cut at the first occurrence of a mark, and the division
    of a source into lines. -/

namespace Telecommand

/-- A text is the list of its characters. -/
abbrev Text := List Char

/-- A string literal may stand where a text is expected. -/
instance : Coe String Text := ⟨String.toList⟩

namespace Text

/-- What stands before and after the first occurrence of a mark, if the
    mark occurs. -/
def cut? (mark : Char) : Text → Option (Text × Text)
  | [] => none
  | c :: rest =>
      if c = mark then some ([], rest)
      else (cut? mark rest).map fun (front, back) => (c :: front, back)

/-- What stands before the first occurrence of a mark: all of the text if
    the mark does not occur. -/
def before (mark : Char) (text : Text) : Text :=
  text.takeWhile (· ≠ mark)

/-- A line without the carriage return at its end, if it has one. -/
def chopReturn (line : Text) : Text :=
  if line.getLast? = some '\r' then line.dropLast else line

/-- The lines of a source.  A line ends at a line feed, with one carriage
    return before it; what follows the last line feed is a line only if it
    is not empty. -/
def lines (source : Text) : List Text :=
  let pieces := source.splitOn '\n'
  pieces.dropLast.map chopReturn ++ pieces.getLast?.toList.filter (· ≠ [])

/-- A cut loses nothing but names the mark it was made at. -/
theorem eq_of_cut? {mark : Char} {text front back : Text}
    (h : cut? mark text = some (front, back)) :
    text = front ++ mark :: back := by
  induction text generalizing front with
  | nil => simp [cut?] at h
  | cons c rest ih =>
      by_cases hc : c = mark
      · simp [cut?, hc] at h
        simp [← h.1, ← h.2, hc]
      · simp only [cut?, if_neg hc, Option.map_eq_some_iff] at h
        obtain ⟨⟨f, b⟩, hcut, heq⟩ := h
        simp only [Prod.mk.injEq] at heq
        obtain ⟨rfl, rfl⟩ := heq
        simp [ih hcut]

/-- The part in front of a cut does not hold the mark. -/
theorem notMem_of_cut? {mark : Char} {text front back : Text}
    (h : cut? mark text = some (front, back)) : mark ∉ front := by
  induction text generalizing front with
  | nil => simp [cut?] at h
  | cons c rest ih =>
      by_cases hc : c = mark
      · simp [cut?, hc] at h
        simp [h.1]
      · simp only [cut?, if_neg hc, Option.map_eq_some_iff] at h
        obtain ⟨⟨f, b⟩, hcut, heq⟩ := h
        simp only [Prod.mk.injEq] at heq
        obtain ⟨rfl, rfl⟩ := heq
        simp only [List.mem_cons, not_or]
        exact ⟨fun he => hc he.symm, ih hcut⟩

/-- A text whose front part does not hold the mark is cut at the mark that
    follows it. -/
theorem cut?_append {mark : Char} {front : Text} (back : Text)
    (h : mark ∉ front) :
    cut? mark (front ++ mark :: back) = some (front, back) := by
  induction front with
  | nil => simp [cut?]
  | cons c rest ih =>
      simp only [List.mem_cons, not_or] at h
      simp [cut?, Ne.symm h.1, ih h.2]

/-- A text is not cut only where it does not hold the mark. -/
theorem cut?_eq_none_iff {mark : Char} {text : Text} :
    cut? mark text = none ↔ mark ∉ text := by
  induction text with
  | nil => simp [cut?]
  | cons c rest ih =>
      by_cases hc : c = mark
      · simp [cut?, hc]
      · simp only [cut?, if_neg hc, Option.map_eq_none_iff, ih, List.mem_cons, not_or]
        exact ⟨fun hrest => ⟨fun he => hc he.symm, hrest⟩, And.right⟩

/-- What stands before a mark is what a cut at it would leave in front. -/
theorem before_append {mark : Char} {front : Text} (back : Text) (h : mark ∉ front) :
    before mark (front ++ mark :: back) = front := by
  induction front with
  | nil => simp [before]
  | cons c rest ih =>
      simp only [List.mem_cons, not_or] at h
      have hrest : (rest ++ mark :: back).takeWhile (· ≠ mark) = rest := ih h.2
      rw [before, List.cons_append, List.takeWhile_cons_of_pos (by simpa using Ne.symm h.1), hrest]

end Text

end Telecommand
