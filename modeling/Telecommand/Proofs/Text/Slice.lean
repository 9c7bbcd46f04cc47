import Telecommand.Text.Hex
import Telecommand.Text.Utf8
import Mathlib.Data.List.Basic

/-! # Slices by byte offset

    A slice between two byte offsets exists exactly where the text comes
    apart into three parts at these offsets (`utf8Slice?_eq_some_iff`): the
    part in front fills the bytes up to the first offset, and the slice those
    up to the second one.  An offset that no such parting reaches, because it
    lies behind the end or inside a character, has no slice. -/

namespace Telecommand.Text

variable {text front back : Text} {count : Nat}

/-! ## Lengths in bytes -/

theorem utf8Length_cons (c : Char) (rest : Text) :
    utf8Length (c :: rest) = c.utf8Size + utf8Length rest := rfl

theorem eq_nil_of_utf8Length (h : utf8Length text = 0) : text = [] := by
  cases text with
  | nil => rfl
  | cons c rest =>
      have hc := c.utf8Size_pos
      rw [utf8Length_cons] at h
      omega

theorem utf8Length_append (front back : Text) :
    utf8Length (front ++ back) = utf8Length front + utf8Length back := by
  induction front with
  | nil => exact (Nat.zero_add _).symm
  | cons c rest ih =>
      rw [List.cons_append, utf8Length_cons, utf8Length_cons, ih, Nat.add_assoc]

theorem utf8Length_reverse (text : Text) : utf8Length text.reverse = utf8Length text := by
  induction text with
  | nil => rfl
  | cons c rest ih =>
      rw [List.reverse_cons, utf8Length_append, ih, utf8Length_cons, Nat.add_comm]
      rfl

/-- The length in bytes is the number of the bytes. -/
theorem length_toUtf8 (text : Text) : text.toUtf8.length = utf8Length text := by
  induction text with
  | nil => rfl
  | cons c rest ih =>
      show (String.utf8EncodeChar c ++ rest.flatMap String.utf8EncodeChar).length = _
      rw [List.length_append, String.length_utf8EncodeChar, utf8Length_cons, ← ih]
      rfl

/-- A hexadecimal digit is one byte. -/
theorem utf8Size_of_isHexDigit {c : Char} (h : isHexDigit c = true) : c.utf8Size = 1 := by
  obtain ⟨n, hn⟩ := Option.isSome_iff_exists.mp h
  have hrange := hexDigit?_cases hn
  have hascii : c.toNat ≤ 127 := by omega
  exact Char.utf8Size_eq_one_iff.mpr hascii

theorem utf8Length_of_digits (h : ∀ c ∈ text, isHexDigit c = true) :
    utf8Length text = text.length := by
  induction text with
  | nil => rfl
  | cons c rest ih =>
      have hc := utf8Size_of_isHexDigit (h c List.mem_cons_self)
      have hrest := ih fun d hd => h d (List.mem_cons_of_mem c hd)
      rw [utf8Length_cons, hc, hrest, List.length_cons, Nat.add_comm]

/-! ## Parting at an offset -/

private theorem dropUtf8?_cons {c : Char} {rest : Text} (hcount : 0 < count) :
    dropUtf8? count (c :: rest)
      = if c.utf8Size ≤ count then dropUtf8? (count - c.utf8Size) rest else none := by
  cases count with
  | zero => exact absurd hcount (Nat.lt_irrefl 0)
  | succ count => rfl

private theorem takeUtf8?_cons {c : Char} {rest : Text} (hcount : 0 < count) :
    takeUtf8? count (c :: rest)
      = if c.utf8Size ≤ count then (takeUtf8? (count - c.utf8Size) rest).map (c :: ·)
        else none := by
  cases count with
  | zero => exact absurd hcount (Nat.lt_irrefl 0)
  | succ count => rfl

/-- What fills the bytes up to an offset is left out, and nothing else. -/
theorem dropUtf8?_append (front back : Text) :
    dropUtf8? (utf8Length front) (front ++ back) = some back := by
  induction front with
  | nil => cases back <;> rfl
  | cons c rest ih =>
      have hc := c.utf8Size_pos
      rw [utf8Length_cons, List.cons_append, dropUtf8?_cons (by omega), if_pos (by omega),
        Nat.add_sub_cancel_left, ih]

/-- What fills the bytes up to an offset is taken, and nothing else. -/
theorem takeUtf8?_append (front back : Text) :
    takeUtf8? (utf8Length front) (front ++ back) = some front := by
  induction front with
  | nil => cases back <;> rfl
  | cons c rest ih =>
      have hc := c.utf8Size_pos
      rw [utf8Length_cons, List.cons_append, takeUtf8?_cons (by omega), if_pos (by omega),
        Nat.add_sub_cancel_left, ih]
      rfl

/-- Something is left behind an offset only if a part in front reaches it. -/
theorem dropUtf8?_eq_some_iff :
    dropUtf8? count text = some back ↔ ∃ front, text = front ++ back ∧ utf8Length front = count := by
  constructor
  · intro h
    induction text generalizing count with
    | nil =>
        cases count with
        | zero => exact ⟨[], Option.some.inj h, rfl⟩
        | succ count => cases h
    | cons c rest ih =>
        rcases Nat.eq_zero_or_pos count with rfl | hcount
        · exact ⟨[], Option.some.inj h, rfl⟩
        · rw [dropUtf8?_cons hcount, Option.ite_none_right_eq_some] at h
          obtain ⟨hfits, h⟩ := h
          obtain ⟨front, hfront, hlength⟩ := ih h
          refine ⟨c :: front, by rw [hfront, List.cons_append], ?_⟩
          rw [utf8Length_cons, hlength]
          omega
  · rintro ⟨front, rfl, rfl⟩
    exact dropUtf8?_append front back

/-- Something is taken up to an offset only if it reaches the offset. -/
theorem takeUtf8?_eq_some_iff :
    takeUtf8? count text = some front ↔ ∃ back, text = front ++ back ∧ utf8Length front = count := by
  constructor
  · intro h
    induction text generalizing count front with
    | nil =>
        cases count with
        | zero =>
            obtain rfl : [] = front := Option.some.inj h
            exact ⟨[], rfl, rfl⟩
        | succ count => cases h
    | cons c rest ih =>
        rcases Nat.eq_zero_or_pos count with rfl | hcount
        · obtain rfl : [] = front := Option.some.inj h
          exact ⟨c :: rest, rfl, rfl⟩
        · rw [takeUtf8?_cons hcount, Option.ite_none_right_eq_some, Option.map_eq_some_iff] at h
          obtain ⟨hfits, taken, htaken, rfl⟩ := h
          obtain ⟨back, hback, hlength⟩ := ih htaken
          refine ⟨back, by rw [hback, List.cons_append], ?_⟩
          rw [utf8Length_cons, hlength]
          omega
  · rintro ⟨back, rfl, rfl⟩
    exact takeUtf8?_append front back

/-- **A slice exists exactly between two offsets at which the text comes
    apart.** -/
theorem utf8Slice?_eq_some_iff {start stop : Nat} {slice : Text} :
    utf8Slice? start stop text = some slice
      ↔ ∃ front back, text = front ++ (slice ++ back) ∧ utf8Length front = start
        ∧ utf8Length slice = stop - start := by
  rw [utf8Slice?, Option.bind_eq_some_iff]
  constructor
  · rintro ⟨rest, hdrop, htake⟩
    obtain ⟨front, rfl, hstart⟩ := dropUtf8?_eq_some_iff.mp hdrop
    obtain ⟨back, rfl, hlength⟩ := takeUtf8?_eq_some_iff.mp htake
    exact ⟨front, back, rfl, hstart, hlength⟩
  · rintro ⟨front, back, rfl, hstart, hlength⟩
    exact ⟨slice ++ back, dropUtf8?_eq_some_iff.mpr ⟨front, rfl, hstart⟩,
      takeUtf8?_eq_some_iff.mpr ⟨back, rfl, hlength⟩⟩

end Telecommand.Text
