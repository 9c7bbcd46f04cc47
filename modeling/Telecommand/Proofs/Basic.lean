import Telecommand.Text.Basic
import Mathlib.Data.List.Basic

/-! # Results and separated texts

    What the other modules use of the two things that arguments, lines and
    paths have in common: they are read in steps that may fail, and they are
    texts of parts with a separator between them.

    A separated text is its first part and then, with a separator in front,
    each of the others (`intercalate_cons`), so its characters are those of the
    parts and the separators. -/

namespace Telecommand

/-! ## Results -/

section

variable {ε α β : Type} {first : Except ε α} {next : α → Except ε β}

/-- A computation in two steps succeeds when the first step does, and then
    the second one on its value. -/
theorem bind_eq_ok_iff {b : β} :
    first >>= next = .ok b ↔ ∃ a, first = .ok a ∧ next a = .ok b := by
  constructor
  · intro h
    cases first with
    | error refusal => cases h
    | ok a => exact ⟨a, rfl, h⟩
  · rintro ⟨a, rfl, h⟩
    exact h

/-- A computation in two steps fails as its first step does, or as the second
    one does on the value of the first. -/
theorem bind_eq_error_iff {e : ε} :
    first >>= next = .error e ↔ first = .error e ∨ ∃ a, first = .ok a ∧ next a = .error e := by
  cases first with
  | error refusal =>
      constructor
      · intro h
        obtain rfl : refusal = e := Except.error.inj h
        exact .inl rfl
      · rintro (h | ⟨a, ha, -⟩)
        · obtain rfl : refusal = e := Except.error.inj h
          rfl
        · cases ha
  | ok a =>
      constructor
      · intro h
        exact .inr ⟨a, rfl, h⟩
      · rintro (h | ⟨b, hb, h⟩)
        · cases h
        · obtain rfl : a = b := Except.ok.inj hb
          exact h

end

namespace Text

/-! ## Separated texts -/

variable {separator mark : Char} {parts : List Text} {part : Text}

theorem intercalate_cons (separator : Char) (part : Text) (rest : List Text) :
    [separator].intercalate (part :: rest) = part ++ rest.flatMap (separator :: ·) := by
  induction rest generalizing part with
  | nil => simp
  | cons next others ih =>
      rw [List.intercalate_cons_of_ne_nil (List.cons_ne_nil next others), ih, List.flatMap_cons]
      simp

/-- Parts before a part have a separator behind each of them, and parts after it
    have one in front. -/
theorem intercalate_append_cons (separator : Char) (front : List Text) (part : Text)
    (rest : List Text) :
    [separator].intercalate (front ++ part :: rest)
      = front.flatMap (· ++ [separator]) ++ part ++ rest.flatMap (separator :: ·) := by
  induction front with
  | nil => exact intercalate_cons separator part rest
  | cons first others ih =>
      rw [List.cons_append, List.intercalate_cons_of_ne_nil (by simp), ih, List.flatMap_cons]
      simp only [List.append_assoc]

/-- Separated parts are the last of them behind ended parts. -/
theorem intercalate_concat (separator : Char) (front : List Text) (last : Text) :
    [separator].intercalate (front ++ [last]) = front.flatMap (· ++ [separator]) ++ last := by
  rw [intercalate_append_cons, List.flatMap_nil, List.append_nil]

/-- Separated parts end as the last of them does. -/
theorem getLast?_intercalate (separator : Char) (front : List Text) {last : Text}
    (h : last ≠ []) :
    ([separator].intercalate (front ++ [last])).getLast? = last.getLast? := by
  rw [intercalate_concat, List.getLast?_append_of_ne_nil _ h]

/-- What is in a part is between the separators. -/
theorem mem_intercalate (hpart : part ∈ parts) (hmark : mark ∈ part) :
    mark ∈ [separator].intercalate parts := by
  obtain ⟨front, rest, rfl⟩ := List.append_of_mem hpart
  rw [intercalate_append_cons]
  exact List.mem_append_left _ (List.mem_append_right _ hmark)

/-- A mark that no part holds is not between them either, unless it is what
    separates them. -/
theorem notMem_intercalate (hmark : mark ≠ separator) (h : ∀ part ∈ parts, mark ∉ part) :
    mark ∉ [separator].intercalate parts := by
  cases parts with
  | nil => exact List.not_mem_nil
  | cons part rest =>
      rw [intercalate_cons]
      intro hmem
      rcases List.mem_append.mp hmem with hpart | hrest
      · exact h part List.mem_cons_self hpart
      · obtain ⟨other, hother, hmem⟩ := List.mem_flatMap.mp hrest
        rcases List.mem_cons.mp hmem with hsame | hmem
        · exact hmark hsame
        · exact h other (List.mem_cons_of_mem part hother) hmem

/-- Separated parts leave no text only if there are none, or one that is
    empty. -/
theorem intercalate_ne_nil (hnil : parts ≠ []) (hempty : parts ≠ [[]]) :
    [separator].intercalate parts ≠ [] := by
  obtain ⟨part, rest, rfl⟩ := List.exists_cons_of_ne_nil hnil
  rw [intercalate_cons]
  intro h
  obtain ⟨rfl, hrest⟩ := List.append_eq_nil_iff.mp h
  cases rest with
  | nil => exact hempty rfl
  | cons next others => cases hrest

/-! ## Splitting at a mark -/

/-- There is one piece more than there are marks to split at. -/
theorem length_splitOn (mark : Char) (text : Text) :
    (text.splitOn mark).length = text.count mark + 1 := by
  induction text with
  | nil => rfl
  | cons c rest ih =>
      rw [List.splitOn_cons_eq_if_modifyHead]
      by_cases hc : c = mark
      · rw [hc, if_pos (beq_self_eq_true mark), List.length_cons, ih, List.count_cons_self]
      · rw [if_neg (by simpa using hc), List.length_modifyHead, ih, List.count_cons_of_ne hc]

/-- No piece of a split text holds the mark it is split at. -/
theorem notMem_of_mem_splitOn {text piece : Text}
    (h : piece ∈ text.splitOn mark) : mark ∉ piece := by
  induction text generalizing piece with
  | nil =>
      have hnil : piece = [] := by simpa using h
      simp [hnil]
  | cons c rest ih =>
      rw [List.splitOn_cons_eq_if_modifyHead] at h
      by_cases hc : c = mark
      · simp only [hc, beq_self_eq_true, if_true, List.mem_cons] at h
        rcases h with rfl | h
        · simp
        · exact ih h
      · rw [if_neg (by simpa using hc)] at h
        cases hs : rest.splitOn mark with
        | nil => exact absurd hs (List.splitOn_ne_nil mark rest)
        | cons first others =>
            rw [hs, List.modifyHead_cons, List.mem_cons] at h
            rcases h with rfl | h
            · -- the first piece has grown by a character that is not the mark
              have hfirst := ih (hs ▸ List.mem_cons_self)
              simpa [Ne.symm hc] using hfirst
            · exact ih (hs ▸ List.mem_cons_of_mem first h)

end Text

end Telecommand
