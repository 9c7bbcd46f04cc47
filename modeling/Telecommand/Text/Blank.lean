import Telecommand.Text.Basic

/-! # Blank characters

    The characters with the Unicode property `White_Space`, as a table of
    ranges.  Script lines are read with all of them removed. -/

namespace Telecommand.Text

/-- The code points with the property `White_Space`, as inclusive ranges in
    ascending order. -/
def blankRanges : List (Nat × Nat) :=
  [(0x09, 0x0D), (0x20, 0x20), (0x85, 0x85), (0xA0, 0xA0), (0x1680, 0x1680),
   (0x2000, 0x200A), (0x2028, 0x2029), (0x202F, 0x202F), (0x205F, 0x205F),
   (0x3000, 0x3000)]

/-- Whether a character is blank. -/
def isBlank (c : Char) : Bool :=
  blankRanges.any fun (low, high) => low ≤ c.toNat && c.toNat ≤ high

/-- A text without its blank characters. -/
def compact (text : Text) : Text :=
  text.filter fun c => !isBlank c

/-- A text from its first character that is not blank. -/
def trimStart (text : Text) : Text :=
  text.dropWhile isBlank

/-- The table holds twenty-five code points. -/
example : (blankRanges.map fun (low, high) => high + 1 - low).sum = 25 := by
  decide

@[simp] theorem compact_nil : compact [] = [] := rfl

/-- Removing blanks works on each part of a text by itself. -/
@[simp] theorem compact_append (a b : Text) :
    compact (a ++ b) = compact a ++ compact b := by
  simp [compact]

/-- Nothing blank is left to remove. -/
@[simp] theorem compact_compact (text : Text) :
    compact (compact text) = compact text := by
  simp [compact]

/-- What is not blank comes first alike, whether the blanks are removed
    everywhere or only in front. -/
theorem head?_compact (text : Text) :
    (compact text).head? = (trimStart text).head? := by
  induction text with
  | nil => rfl
  | cons c rest ih =>
      cases hc : isBlank c with
      | true => simpa [compact, trimStart, hc] using ih
      | false => simp [compact, trimStart, hc]

end Telecommand.Text
