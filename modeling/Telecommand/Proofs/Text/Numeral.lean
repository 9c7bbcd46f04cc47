import Telecommand.Text.Blank
import Telecommand.Text.Decimal
import Telecommand.Text.Hex
import Mathlib.Tactic.Ring

/-! # Values of numerals

    The value of a hexadecimal numeral is positional (`hexValue_cons`), so it
    is bounded by the number of digits, does not change with leading zeros,
    and needs as many digits as are significant
    (`length_significant_le_iff`).

    Digits are neither blank nor marks of the script language; a written
    numeral can therefore stand anywhere in a line. -/

namespace Telecommand.Text

/-! ## Positional value -/

section Positional

variable {α : Type} (base : Nat) {digit : α → Nat}

/-- Counting digits on from a number moves it up by as many places as there
    are digits. -/
theorem foldl_positional (digits : List α) (n : Nat) :
    digits.foldl (fun value d => base * value + digit d) n
      = n * base ^ digits.length + digits.foldl (fun value d => base * value + digit d) 0 := by
  induction digits generalizing n with
  | nil => simp
  | cons d rest ih =>
      rw [List.foldl_cons, List.foldl_cons, ih, ih (base * 0 + digit d), List.length_cons,
        Nat.pow_succ]
      ring

/-- Digits below the base count less than the base to their number. -/
theorem foldl_positional_lt (hdigit : ∀ d, digit d < base) (digits : List α) :
    digits.foldl (fun value d => base * value + digit d) 0 < base ^ digits.length := by
  induction digits with
  | nil => exact Nat.one_pos
  | cons d rest ih =>
      have hfirst : (digit d + 1) * base ^ rest.length ≤ base * base ^ rest.length :=
        Nat.mul_le_mul_right _ (hdigit d)
      rw [Nat.add_mul, Nat.one_mul] at hfirst
      rw [List.foldl_cons, foldl_positional, Nat.mul_zero, Nat.zero_add, List.length_cons,
        Nat.pow_succ, Nat.mul_comm (base ^ rest.length)]
      omega

end Positional

/-- The first digit counts sixteen to the number of the others. -/
theorem hexValue_cons (c : Char) (rest : Text) :
    hexValue (c :: rest) = (hexDigit? c).getD 0 * 16 ^ rest.length + hexValue rest := by
  rw [hexValue, List.foldl_cons, foldl_positional, Nat.mul_zero, Nat.zero_add]
  rfl

/-- Digits in front count sixteen to the number of the digits behind. -/
theorem hexValue_append (front back : Text) :
    hexValue (front ++ back) = hexValue front * 16 ^ back.length + hexValue back := by
  rw [hexValue, List.foldl_append, foldl_positional]
  rfl

theorem hexDigit?_getD_lt (c : Char) : (hexDigit? c).getD 0 < 16 := by
  cases h : hexDigit? c with
  | none => decide
  | some n => exact hexDigit?_lt h

theorem hexValue_lt (text : Text) : hexValue text < 16 ^ text.length :=
  foldl_positional_lt 16 hexDigit?_getD_lt text

/-- Parts of one length that count the same together count the same each. -/
theorem hexValue_append_inj {front front' back back' : Text} (hlength : back.length = back'.length)
    (h : hexValue (front ++ back) = hexValue (front' ++ back')) :
    hexValue front = hexValue front' ∧ hexValue back = hexValue back' := by
  have hlow := hexValue_lt back
  have hlow' := hexValue_lt back'
  rw [hexValue_append, hexValue_append, ← hlength] at h
  rw [← hlength] at hlow'
  have hdiv (high : Nat) {low : Nat} (hlt : low < 16 ^ back.length) :
      (high * 16 ^ back.length + low) / 16 ^ back.length = high := by
    rw [Nat.add_comm, Nat.add_mul_div_right _ _ (Nat.pow_pos (by decide)),
      Nat.div_eq_of_lt hlt, Nat.zero_add]
  have hhigh : hexValue front = hexValue front' := by
    rw [← hdiv (hexValue front) hlow, h, hdiv _ hlow']
  rw [hhigh] at h
  exact ⟨hhigh, Nat.add_left_cancel h⟩

/-! ## Significant digits -/

/-- A numeral from its first digit that is not zero. -/
def significant (text : Text) : Text := text.dropWhile (· = '0')

/-- Leading zeros do not count. -/
theorem hexValue_significant (text : Text) : hexValue (significant text) = hexValue text := by
  induction text with
  | nil => rfl
  | cons c rest ih =>
      by_cases hc : c = '0'
      · have hzero : (hexDigit? '0').getD 0 = 0 := by decide
        have hdrop : significant (c :: rest) = significant rest := by
          simp [significant, hc]
        rw [hdrop, ih, hexValue_cons, hc, hzero, Nat.zero_mul, Nat.zero_add]
      · have hkeep : significant (c :: rest) = c :: rest := by
          simp [significant, hc]
        rw [hkeep]

/-- Only the digit zero counts nothing. -/
theorem hexDigit?_pos {c : Char} (h : isHexDigit c = true) (hc : c ≠ '0') :
    0 < (hexDigit? c).getD 0 := by
  obtain ⟨n, hn⟩ := Option.isSome_iff_exists.mp h
  rw [hn, Option.getD_some]
  refine Nat.pos_of_ne_zero ?_
  rintro rfl
  -- of the three ranges of digits only the first one begins at value zero
  have hnat : c.toNat = 48 := by
    have := hexDigit?_cases hn
    omega
  exact hc (by rw [← Char.ofNat_toNat c, hnat])

/-- A value below a power of sixteen is a numeral with no more significant
    digits than the exponent says. -/
theorem length_significant_le_iff {text : Text} (h : ∀ c ∈ text, isHexDigit c = true)
    (k : Nat) : (significant text).length ≤ k ↔ hexValue text < 16 ^ k := by
  rw [← hexValue_significant]
  constructor
  · intro hle
    exact Nat.lt_of_lt_of_le (hexValue_lt _) (Nat.pow_le_pow_right (by decide) hle)
  · intro hlt
    cases hs : significant text with
    | nil => exact Nat.zero_le k
    | cons c rest =>
        -- the first significant digit alone is worth sixteen to the rest
        have hne : c ≠ '0' := by
          have hhead := List.head?_dropWhile_not (fun c => c = '0') text
          have hsig : text.dropWhile (fun c => c = '0') = c :: rest := hs
          simpa [hsig] using hhead
        have hmem : c ∈ text :=
          (List.dropWhile_sublist _).subset (hs ▸ List.mem_cons_self : c ∈ significant text)
        have hpos := hexDigit?_pos (h c hmem) hne
        rw [hs, hexValue_cons] at hlt
        have hle : 16 ^ rest.length ≤ (hexDigit? c).getD 0 * 16 ^ rest.length :=
          Nat.le_mul_of_pos_left _ hpos
        have hpow : 16 ^ rest.length < 16 ^ k := by omega
        exact (Nat.pow_lt_pow_iff_right (by decide)).mp hpow

/-! ## Digits in a line -/

theorem isBlank_of_isHexDigit {c : Char} (h : isHexDigit c = true) : isBlank c = false := by
  obtain ⟨n, hn⟩ := Option.isSome_iff_exists.mp h
  have := hexDigit?_cases hn
  -- no range of blanks reaches into a range of digits
  simp only [isBlank, blankRanges, List.any_cons, List.any_nil, Bool.or_false,
    Bool.or_eq_false_iff, Bool.and_eq_false_iff, decide_eq_false_iff_not]
  omega

theorem isHexDigit_of_isDigit {c : Char} (h : c.isDigit = true) : isHexDigit c = true := by
  have hrange : '0' ≤ c ∧ c ≤ '9' := by
    simp only [Char.isDigit, Bool.and_eq_true, decide_eq_true_eq] at h
    exact h
  rw [isHexDigit, hexDigit?, if_pos hrange]
  rfl

theorem isHexDigit_of_mem_decimal {n : Nat} {c : Char} (h : c ∈ decimal n) :
    isHexDigit c = true :=
  isHexDigit_of_isDigit (Nat.isDigit_of_mem_toDigits (by decide) (by decide) h)

theorem isHexDigit_of_mem_hexPair {byte : UInt8} {c : Char} (h : c ∈ hexPair byte) :
    isHexDigit c = true := by
  have hbyte : byte.toNat < 256 := byte.toNat_lt
  have hdigit : ∀ m < 16, isHexDigit (upperHexDigit m) = true := by
    intro m hm
    rw [isHexDigit, hexDigit?_upperHexDigit hm]
    rfl
  rcases List.mem_cons.mp h with rfl | h
  · exact hdigit _ (by omega)
  · rw [List.mem_singleton.mp h]
    exact hdigit _ (by omega)

end Telecommand.Text
