import Telecommand.Proofs.Command.Arguments
import Telecommand.Proofs.Command.Literal
import Telecommand.Proofs.Text.Slice

/-! # Slots

    Every argument of a command stands in a slot: for a word, for a bit field
    or for a byte.  `Slot.Denotes` says which texts denote which number in a
    slot, and `Slot.Refuses` with which refusal the others are turned away;
    every text does the one or the other (`Slot.denotes_or_refuses`).

    The readers of arguments go by these rules (`Slot.IsReadBy`).  A list of
    arguments is therefore read exactly where its slot accepts each of them
    (`Slot.IsReadBy.exists_readEach_ok_iff`), and refused at the first one
    that it does not accept (`Slot.IsReadBy.readEach_eq_error_iff`). -/

namespace Telecommand.Command

open Text

variable {first arg digits : Text} {position number : Nat} {refusal : Refusal}

/-! ## Rules -/

/-- What an argument is read as. -/
inductive Slot
  /-- A word of sixteen bits; the given first argument of the command stands
      in for an argument without a marker. -/
  | word (first : Text)
  /-- A bit field of any width. -/
  | field
  /-- A byte. -/
  | byte

/-- The number of bits in which a marked literal has to fit, if it has to. -/
def Slot.bits? : Slot → Option Nat
  | .word _ => some 16
  | .field => none
  | .byte => some 8

/-- The slot in which the arguments of a shape stand, by the first of them. -/
def Shape.slot (first : Text) : Shape → Slot
  | .wordPair => .word first
  | .bitFields _ _ => .field
  | .sixBytes => .byte

/-- The digits that stand in for an argument without a marker: the first
    argument has four hexadecimal digits behind its first two bytes. -/
def StandIn (first digits : Text) : Prop :=
  ∃ front back, first = front ++ (digits ++ back) ∧ front.toUtf8.length = 2
    ∧ digits.length = 4 ∧ ∀ c ∈ digits, isHexDigit c = true

/-- Which number an argument denotes in a slot. -/
inductive Slot.Denotes : Slot → Text → Nat → Prop
  /-- The marker and one or more hexadecimal digits denote the value of the
      digits, if it fits. -/
  | marked {slot : Slot} {digits : Text} (hdigits : isHexadecimal digits = true)
      (hfits : ∀ bits ∈ slot.bits?, hexValue digits < 2 ^ bits) :
      slot.Denotes (hexMarker :: digits) (hexValue digits)
  /-- Any other argument for a word denotes the value of the digits that
      stand in for it. -/
  | standIn {first arg digits : Text} (harg : isMarked arg = false)
      (hdigits : StandIn first digits) :
      (Slot.word first).Denotes arg (hexValue digits)
  /-- One or more decimal digits denote the low byte of their value. -/
  | decimal {arg : Text} (hdigits : isDecimal arg = true) :
      Slot.byte.Denotes arg (decimalValue arg % 256)

/-- That an argument denotes a number in a slot. -/
def Slot.Accepts (slot : Slot) (arg : Text) : Prop := ∃ number, slot.Denotes arg number

/-- With which refusal an argument at a position is turned away. -/
inductive Slot.Refuses (position : Nat) : Slot → Text → Refusal → Prop
  /-- An argument for a bit field has no marker. -/
  | unmarked {arg : Text} (harg : isMarked arg = false) :
      Refuses position .field arg (.badHexLiteral position arg .unmarked)
  /-- Something else than one or more hexadecimal digits follows the marker. -/
  | notDigits {slot : Slot} {digits : Text} (hdigits : isHexadecimal digits = false) :
      Refuses position slot (hexMarker :: digits)
        (.badHexLiteral position (hexMarker :: digits) .notDigits)
  /-- The digits behind the marker have too high a value. -/
  | tooWide {slot : Slot} {digits : Text} {bits : Nat} (hdigits : isHexadecimal digits = true)
      (hbits : slot.bits? = some bits) (hwide : 2 ^ bits ≤ hexValue digits) :
      Refuses position slot (hexMarker :: digits)
        (.badHexLiteral position (hexMarker :: digits) (.tooWide bits))
  /-- An argument for a word has no marker, and no digits stand in for it. -/
  | noStandIn {first arg : Text} (harg : isMarked arg = false)
      (hnone : ∀ digits, ¬ StandIn first digits) :
      Refuses position (.word first) arg (.badHexLiteral position arg .notDigits)
  /-- An argument for a byte has no marker and is no decimal literal. -/
  | notDecimal {arg : Text} (harg : isMarked arg = false) (hdigits : isDecimal arg = false) :
      Refuses position .byte arg (.badDecimalLiteral position arg)

/-- **An argument denotes a number in a slot, or it is refused.** -/
theorem Slot.denotes_or_refuses (slot : Slot) (position : Nat) (arg : Text) :
    slot.Accepts arg ∨ ∃ refusal, slot.Refuses position arg refusal := by
  cases hmark : isMarked arg with
  | true =>
      obtain ⟨digits, rfl⟩ := isMarked_eq_true_iff.mp hmark
      cases hdigits : isHexadecimal digits with
      | false => exact .inr ⟨_, .notDigits hdigits⟩
      | true =>
          by_cases hfits : ∀ bits ∈ slot.bits?, hexValue digits < 2 ^ bits
          · exact .inl ⟨_, .marked hdigits hfits⟩
          · push Not at hfits
            obtain ⟨bits, hbits, hwide⟩ := hfits
            exact .inr ⟨_, .tooWide hdigits hbits hwide⟩
  | false =>
      cases slot with
      | word first =>
          by_cases hsome : ∃ digits, StandIn first digits
          · obtain ⟨digits, hdigits⟩ := hsome
            exact .inl ⟨_, .standIn hmark hdigits⟩
          · exact .inr ⟨_, .noStandIn hmark fun digits hdigits => hsome ⟨digits, hdigits⟩⟩
      | field => exact .inr ⟨_, .unmarked hmark⟩
      | byte =>
          cases hdigits : isDecimal arg with
          | true => exact .inl ⟨_, .decimal hdigits⟩
          | false => exact .inr ⟨_, .notDecimal hmark hdigits⟩

/-! ## Numbers -/

/-- The digits that stand in are the ones that are found by their byte
    offsets. -/
theorem standIn_iff :
    (utf8Slice? 2 6 first).filter isHexadecimal = some digits ↔ StandIn first digits := by
  rw [Option.filter_eq_some_iff, utf8Slice?_eq_some_iff]
  constructor
  · rintro ⟨⟨front, back, hfirst, hfront, hlength⟩, hdigits⟩
    have hhex := isHexDigit_of_isHexadecimal hdigits
    rw [utf8Length_of_digits hhex] at hlength
    exact ⟨front, back, hfirst, (length_toUtf8 front).trans hfront, hlength, hhex⟩
  · rintro ⟨front, back, hfirst, hfront, hlength, hhex⟩
    have hne : digits ≠ [] := by
      rintro rfl
      cases hlength
    exact ⟨⟨front, back, hfirst, (length_toUtf8 front).symm.trans hfront,
      (utf8Length_of_digits hhex).trans hlength⟩, isHexadecimal_of_digits hne hhex⟩

/-- A first argument has one run of digits that stand in. -/
theorem StandIn.unique {digits' : Text} (h : StandIn first digits) (h' : StandIn first digits') :
    digits = digits' := by
  have hfound := standIn_iff.mpr h
  rw [standIn_iff.mpr h'] at hfound
  exact (Option.some.inj hfound).symm

/-- An argument denotes one number in a slot. -/
theorem Slot.Denotes.unique {slot : Slot} {number' : Nat} (h : slot.Denotes arg number)
    (h' : slot.Denotes arg number') : number = number' := by
  cases h with
  | marked hdigits hfits =>
      cases h' with
      | marked _ _ => rfl
      | standIn harg _ => cases harg
      | decimal hdecimal => cases isMarked_of_isDecimal hdecimal
  | standIn harg hdigits =>
      cases h' with
      | marked _ _ => cases harg
      | standIn _ hdigits' => rw [hdigits.unique hdigits']
  | decimal hdecimal =>
      cases h' with
      | marked _ _ => cases isMarked_of_isDecimal hdecimal
      | decimal _ => rfl

/-- A number that is denoted fits in the bits of its slot. -/
theorem Slot.Denotes.lt {slot : Slot} {bits : Nat} (h : slot.Denotes arg number)
    (hbits : slot.bits? = some bits) : number < 2 ^ bits := by
  cases h with
  | marked _ hfits => exact hfits bits hbits
  | @standIn first arg digits _ hdigits =>
      obtain ⟨front, back, -, -, hlength, -⟩ := hdigits
      obtain rfl : 16 = bits := Option.some.inj hbits
      have hlt := hexValue_lt digits
      rw [hlength] at hlt
      exact hlt
  | decimal _ =>
      obtain rfl : 8 = bits := Option.some.inj hbits
      exact Nat.mod_lt _ (by decide)

/-! ## Readers -/

/-- That a reader goes by the rules of a slot: it reads what denotes a number,
    and has the refusal for what is refused. -/
structure Slot.IsReadBy {β : Type} (slot : Slot) (read : Nat → Text → Except Refusal β) :
    Prop where
  /-- What denotes a number is read, at any position. -/
  ok_of_denotes : ∀ {position arg number}, slot.Denotes arg number →
    ∃ value, read position arg = .ok value
  /-- What is refused is not read. -/
  error_of_refuses : ∀ {position arg refusal}, slot.Refuses position arg refusal →
    read position arg = .error refusal

namespace Slot.IsReadBy

variable {β : Type} {slot : Slot} {read : Nat → Text → Except Refusal β}

/-- An argument is read exactly if its slot accepts it. -/
theorem exists_ok_iff (h : slot.IsReadBy read) :
    (∃ value, read position arg = .ok value) ↔ slot.Accepts arg := by
  constructor
  · rintro ⟨value, hvalue⟩
    rcases slot.denotes_or_refuses position arg with haccepts | ⟨refusal, hrefuses⟩
    · exact haccepts
    · rw [h.error_of_refuses hrefuses] at hvalue
      cases hvalue
  · rintro ⟨number, hnumber⟩
    exact h.ok_of_denotes hnumber

/-- An argument is refused exactly as the rules of its slot say. -/
theorem eq_error_iff (h : slot.IsReadBy read) :
    read position arg = .error refusal ↔ slot.Refuses position arg refusal := by
  constructor
  · intro hrefusal
    rcases slot.denotes_or_refuses position arg with ⟨number, hnumber⟩ | ⟨other, hother⟩
    · obtain ⟨value, hvalue⟩ : ∃ value, read position arg = .ok value :=
        h.ok_of_denotes hnumber
      rw [hvalue] at hrefusal
      cases hrefusal
    · rw [h.error_of_refuses hother] at hrefusal
      obtain rfl : other = refusal := Except.error.inj hrefusal
      exact hother
  · exact h.error_of_refuses

/-- What is refused is not accepted. -/
theorem not_accepts (h : slot.IsReadBy read) (hrefuses : slot.Refuses position arg refusal) :
    ¬ slot.Accepts arg := by
  rintro ⟨number, hnumber⟩
  obtain ⟨value, hvalue⟩ : ∃ value, read position arg = .ok value :=
    h.ok_of_denotes hnumber
  rw [h.error_of_refuses hrefuses] at hvalue
  cases hvalue

/-- **Arguments are read exactly if their slot accepts each of them.** -/
theorem exists_readEach_ok_iff (h : slot.IsReadBy read) {args : List Text} :
    (∃ values, readEach read position args = .ok values) ↔ ∀ arg ∈ args, slot.Accepts arg := by
  constructor
  · rintro ⟨values, hvalues⟩
    have heach : List.Forall₂ (fun arg _ => slot.Accepts arg ∧ True) args values := by
      refine (readEach_eq_ok hvalues).imp ?_
      rintro arg value ⟨place, hvalue⟩
      exact ⟨h.exists_ok_iff.mp ⟨value, hvalue⟩, trivial⟩
    exact ((List.forall₂_and_left args values).mp heach).1
  · intro haccepts
    cases hread : readEach read position args with
    | ok values => exact ⟨values, rfl⟩
    | error refusal =>
        obtain ⟨earlier, arg, later, rfl, -, hrefusal⟩ := readEach_eq_error_iff.mp hread
        exact absurd (haccepts arg (by simp)) (h.not_accepts (h.eq_error_iff.mp hrefusal))

/-- **Arguments are refused at the first one that their slot does not
    accept**, as the rules say for this argument at its place. -/
theorem readEach_eq_error_iff (h : slot.IsReadBy read) {args : List Text} :
    readEach read position args = .error refusal
      ↔ ∃ earlier arg later, args = earlier ++ arg :: later
        ∧ (∀ other ∈ earlier, slot.Accepts other)
        ∧ slot.Refuses (position + earlier.length) arg refusal := by
  rw [Command.readEach_eq_error_iff]
  refine exists_congr fun earlier => exists_congr fun arg => exists_congr fun later => ?_
  rw [h.exists_readEach_ok_iff, h.eq_error_iff]

end Slot.IsReadBy

/-! ## Words -/

theorem readWord_marked (digits : Text) :
    readWord first position (hexMarker :: digits)
      = (hexNumber 16 position (hexMarker :: digits)).map UInt32.toUInt16 :=
  if_pos (isMarked_cons digits)

theorem readWord_unmarked (h : isMarked arg = false) :
    readWord first position arg = unmarkedWord first position arg :=
  if_neg (by rw [h]; exact Bool.false_ne_true)

theorem readWord_of_denotes (h : (Slot.word first).Denotes arg number) :
    readWord first position arg = .ok (UInt16.ofNat number) := by
  cases h with
  | @marked _ digits hdigits hfits =>
      rw [readWord_marked, hexNumber_fits hdigits (by decide) (hfits 16 rfl)]
      show Except.ok (UInt32.ofNat (hexValue digits)).toUInt16 = _
      rw [UInt32.toUInt16_ofNat']
  | standIn harg hdigits =>
      rw [readWord_unmarked harg, unmarkedWord, standIn_iff.mpr hdigits]

theorem readWord_of_refuses (h : (Slot.word first).Refuses position arg refusal) :
    readWord first position arg = .error refusal := by
  cases h with
  | @notDigits _ digits hdigits =>
      rw [readWord_marked, hexNumber_notDigits hdigits]
      rfl
  | @tooWide _ digits bits hdigits hbits hwide =>
      obtain rfl : 16 = bits := Option.some.inj hbits
      rw [readWord_marked, hexNumber_tooWide hdigits (by decide) hwide]
      rfl
  | noStandIn harg hnone =>
      rw [readWord_unmarked harg, unmarkedWord]
      cases hslice : (utf8Slice? 2 6 first).filter isHexadecimal with
      | none => rfl
      | some digits => exact absurd (standIn_iff.mp hslice) (hnone digits)

theorem isReadBy_readWord (first : Text) : (Slot.word first).IsReadBy (readWord first) where
  ok_of_denotes h := ⟨_, readWord_of_denotes h⟩
  error_of_refuses h := readWord_of_refuses h

/-- A word is read from exactly the arguments that denote it. -/
theorem readWord_eq_ok_iff {word : UInt16} :
    readWord first position arg = .ok word ↔ (Slot.word first).Denotes arg word.toNat := by
  constructor
  · intro h
    obtain ⟨number, hnumber⟩ := (isReadBy_readWord first).exists_ok_iff.mp ⟨word, h⟩
    rw [readWord_of_denotes hnumber] at h
    obtain rfl : UInt16.ofNat number = word := Except.ok.inj h
    rwa [UInt16.toNat_ofNat_of_lt' (hnumber.lt rfl)]
  · intro h
    rw [readWord_of_denotes h, UInt16.ofNat_toNat]

/-! ## Bytes -/

theorem readByte_marked (digits : Text) :
    readByte position (hexMarker :: digits)
      = (hexNumber 8 position (hexMarker :: digits)).map UInt32.toUInt8 :=
  if_pos (isMarked_cons digits)

theorem readByte_unmarked (h : isMarked arg = false) :
    readByte position arg = decimalByte position arg :=
  if_neg (by rw [h]; exact Bool.false_ne_true)

theorem readByte_of_denotes (h : Slot.byte.Denotes arg number) :
    readByte position arg = .ok (UInt8.ofNat number) := by
  cases h with
  | @marked _ digits hdigits hfits =>
      rw [readByte_marked, hexNumber_fits hdigits (by decide) (hfits 8 rfl)]
      show Except.ok (UInt32.ofNat (hexValue digits)).toUInt8 = _
      rw [UInt32.toUInt8_ofNat']
  | decimal hdigits =>
      rw [readByte_unmarked (isMarked_of_isDecimal hdigits), decimalByte_decimal hdigits]
      exact congrArg Except.ok UInt8.ofNat_mod_size.symm

theorem readByte_of_refuses (h : Slot.byte.Refuses position arg refusal) :
    readByte position arg = .error refusal := by
  cases h with
  | @notDigits _ digits hdigits =>
      rw [readByte_marked, hexNumber_notDigits hdigits]
      rfl
  | @tooWide _ digits bits hdigits hbits hwide =>
      obtain rfl : 8 = bits := Option.some.inj hbits
      rw [readByte_marked, hexNumber_tooWide hdigits (by decide) hwide]
      rfl
  | notDecimal harg hdigits =>
      rw [readByte_unmarked harg, decimalByte_notDecimal hdigits]

theorem isReadBy_readByte : Slot.byte.IsReadBy readByte where
  ok_of_denotes h := ⟨_, readByte_of_denotes h⟩
  error_of_refuses h := readByte_of_refuses h

/-- A byte is read from exactly the arguments that denote it. -/
theorem readByte_eq_ok_iff {byte : UInt8} :
    readByte position arg = .ok byte ↔ Slot.byte.Denotes arg byte.toNat := by
  constructor
  · intro h
    obtain ⟨number, hnumber⟩ := isReadBy_readByte.exists_ok_iff.mp ⟨byte, h⟩
    rw [readByte_of_denotes hnumber] at h
    obtain rfl : UInt8.ofNat number = byte := Except.ok.inj h
    rwa [UInt8.toNat_ofNat_of_lt' (hnumber.lt rfl)]
  · intro h
    rw [readByte_of_denotes h, UInt8.ofNat_toNat]

/-! ## Bit fields -/

/-- Fields are read as digits first; their widths refuse nothing. -/
theorem isReadBy_markedDigits : Slot.field.IsReadBy markedDigits where
  ok_of_denotes h := by
    cases h with
    | marked hdigits _ => exact ⟨_, markedDigits_marked hdigits⟩
  error_of_refuses h := by
    cases h with
    | unmarked harg => exact markedDigits_unmarked harg
    | notDigits hdigits => exact markedDigits_notDigits hdigits
    | tooWide _ hbits _ => cases hbits

/-- What is refused in a slot is not accepted there. -/
theorem Slot.Refuses.not_accepts {slot : Slot} (h : slot.Refuses position arg refusal) :
    ¬ slot.Accepts arg := by
  cases slot with
  | word first => exact (isReadBy_readWord first).not_accepts h
  | field => exact isReadBy_markedDigits.not_accepts h
  | byte => exact isReadBy_readByte.not_accepts h

end Telecommand.Command
