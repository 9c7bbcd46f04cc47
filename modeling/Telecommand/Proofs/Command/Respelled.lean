import Telecommand.Proofs.Command.Fields
import Telecommand.Proofs.Command.Words

/-! # Respelled literals

    A marked literal counts by its value: leading zeros and the case of its
    digits change nothing (`literals_count_by_value`).  For a shape makes one
    payload of all arguments that denote the same numbers
    (`Shape.encode_of_denotes`), and a respelled literal denotes what it did.

    The one exception are the digits that stand in for an argument without a
    marker.  They are cut out of the first argument as it is spelled: of a
    marked literal, they are its second to fifth digit
    (`standIn_marked_iff`).  So leading zeros decide which digits stand in,
    and whether there are any (`stand_in_sees_leading_zeros`), but the case
    of digits does not (`standAlike_of_length_eq`).  Commands in which the
    spelling of a first argument does not matter are just those where the
    spellings stand in alike (`standAlike_of_encode_alike`). -/

namespace Telecommand.Command

open Text

variable {slot : Slot} {first first' arg arg' digits digits' : Text} {args args' : List Text}
  {number : Nat} {numbers : List Nat} {payload : Payload} {raw raw' : Text}

/-! ## Numbers decide -/

/-- Arguments are accepted each exactly if they denote numbers together. -/
theorem Slot.forall_accepts_iff :
    (∀ arg ∈ args, slot.Accepts arg) ↔ ∃ numbers, List.Forall₂ slot.Denotes args numbers := by
  constructor
  · intro haccepts
    induction args with
    | nil => exact ⟨[], .nil⟩
    | cons arg rest ih =>
        obtain ⟨number, hnumber⟩ := haccepts arg List.mem_cons_self
        obtain ⟨numbers, hnumbers⟩ := ih fun other hother =>
          haccepts other (List.mem_cons_of_mem arg hother)
        exact ⟨number :: numbers, .cons hnumber hnumbers⟩
  · rintro ⟨numbers, hnumbers⟩
    induction hnumbers with
    | nil =>
        intro arg harg
        cases harg
    | cons hnumber _ ih =>
        intro arg harg
        rcases List.mem_cons.mp harg with rfl | hrest
        · exact ⟨_, hnumber⟩
        · exact ih arg hrest

/-- Bit fields of the same numbers are the same bits. -/
theorem packFields_eq_of_denotes {widths : List UInt32} {padding : UInt32} {bits bits' : Bits}
    (hcount : args.length = widths.length) (hcount' : args'.length = widths.length)
    (h : List.Forall₂ Slot.field.Denotes args numbers)
    (h' : List.Forall₂ Slot.field.Denotes args' numbers)
    (hpack : packFields widths padding args = .ok bits)
    (hpack' : packFields widths padding args' = .ok bits') : bits = bits' := by
  have hunique : Relator.RightUnique Slot.field.Denotes := fun _ _ _ hm hn => hm.unique hn
  obtain ⟨hlength, found, hfound, hvalue⟩ := of_packFields hcount hpack
  obtain ⟨hlength', found', hfound', hvalue'⟩ := of_packFields hcount' hpack'
  obtain rfl : found = numbers := hunique.forall₂ hfound h
  obtain rfl : found' = found := hunique.forall₂ hfound' h'
  exact Bits.eq_of_value_eq (hlength.trans hlength'.symm) (hvalue.trans hvalue'.symm)

/-- **A shape makes one payload of all arguments that denote the same
    numbers.** -/
theorem Shape.encode_of_denotes {shape : Shape} (hcount : args.length = shape.argumentCount)
    (hcount' : args'.length = shape.argumentCount)
    (h : List.Forall₂ (shape.slot (args.headD [])).Denotes args numbers)
    (h' : List.Forall₂ (shape.slot (args'.headD [])).Denotes args' numbers) :
    ∃ payload, shape.encode args = .ok payload ∧ shape.encode args' = .ok payload := by
  cases shape with
  | wordPair =>
      have hwords {first : Text} {args : List Text}
          (h : List.Forall₂ (Slot.word first).Denotes args numbers) :
          readEach (readWord first) 1 args = .ok (numbers.map UInt16.ofNat) := by
        refine readEach_of_forall₂ ?_ h
        intro place arg number hnumber
        exact readWord_of_denotes hnumber
      refine ⟨.ofBytes ((numbers.map UInt16.ofNat).flatMap wordBytes), ?_, ?_⟩
      · show encodeWordPair args = _
        rw [encodeWordPair, hwords h]
        rfl
      · show encodeWordPair args' = _
        rw [encodeWordPair, hwords h']
        rfl
  | bitFields widths padding =>
      obtain ⟨payload, hpayload⟩ :=
        (exists_encode_ok_iff hcount).mpr (Slot.forall_accepts_iff.mpr ⟨numbers, h⟩)
      obtain ⟨payload', hpayload'⟩ :=
        (exists_encode_ok_iff hcount').mpr (Slot.forall_accepts_iff.mpr ⟨numbers, h'⟩)
      obtain ⟨bits, hpack, hbits⟩ := bind_eq_ok_iff.mp
        (show packFields widths padding args >>= _ = .ok payload from hpayload)
      obtain ⟨bits', hpack', hbits'⟩ := bind_eq_ok_iff.mp
        (show packFields widths padding args' >>= _ = .ok payload' from hpayload')
      obtain rfl := packFields_eq_of_denotes hcount hcount' h h' hpack hpack'
      exact ⟨payload, hpayload, hpayload'.trans (hbits'.symm.trans hbits)⟩
  | sixBytes =>
      have hbytes {args : List Text} (h : List.Forall₂ Slot.byte.Denotes args numbers) :
          readEach readByte 1 args = .ok (numbers.map UInt8.ofNat) := by
        refine readEach_of_forall₂ ?_ h
        intro place arg number hnumber
        exact readByte_of_denotes hnumber
      refine ⟨.ofBytes (numbers.map UInt8.ofNat), ?_, ?_⟩
      · show encodeSixBytes args = _
        rw [encodeSixBytes, hbytes h]
        rfl
      · show encodeSixBytes args' = _
        rw [encodeSixBytes, hbytes h']
        rfl

/-! ## Spellings of one value -/

/-- That an argument is another one respelled: it is the same text, or both
    are marked literals of one value. -/
inductive Respelled : Text → Text → Prop
  | same (arg : Text) : Respelled arg arg
  | literal {digits digits' : Text} (hdigits : isHexadecimal digits = true)
      (hdigits' : isHexadecimal digits' = true) (hvalue : hexValue digits = hexValue digits') :
      Respelled (hexMarker :: digits) (hexMarker :: digits')

theorem Respelled.symm (h : Respelled arg arg') : Respelled arg' arg := by
  cases h with
  | same => exact .same arg
  | literal hdigits hdigits' hvalue => exact .literal hdigits' hdigits hvalue.symm

/-- That the digits that stand in for an argument without a marker have a
    value. -/
def StandsFor (first : Text) (number : Nat) : Prop :=
  ∃ digits, StandIn first digits ∧ hexValue digits = number

/-- That two first arguments stand in alike: for the same number, or neither
    of them for any. -/
def StandAlike (first first' : Text) : Prop :=
  ∀ number, StandsFor first number ↔ StandsFor first' number

/-- **A respelled argument denotes what it did**, where the first arguments
    stand in alike if they have to. -/
theorem Shape.denotes_of_respelled {shape : Shape} (h : Respelled arg arg')
    (hstand : shape = .wordPair → isMarked arg = true ∨ StandAlike first first')
    (hnumber : (shape.slot first).Denotes arg number) :
    (shape.slot first').Denotes arg' number := by
  have hbits : (shape.slot first').bits? = (shape.slot first).bits? := by
    cases shape <;> rfl
  cases h with
  | literal hdigits hdigits' hvalue =>
      generalize hslot : shape.slot first = slot at hnumber hbits
      cases hnumber with
      | marked _ hfits =>
          rw [hvalue]
          refine .marked hdigits' fun bits hmem => ?_
          rw [← hvalue]
          exact hfits bits (hbits ▸ hmem)
      | standIn harg _ =>
          rw [isMarked_cons] at harg
          cases harg
      | decimal hdecimal =>
          have harg := isMarked_of_isDecimal hdecimal
          rw [isMarked_cons] at harg
          cases harg
  | same =>
      cases shape with
      | bitFields widths padding => exact hnumber
      | sixBytes => exact hnumber
      | wordPair =>
          have hnumber : (Slot.word first).Denotes arg number := hnumber
          cases hnumber with
          | marked hdigits hfits => exact .marked hdigits hfits
          | standIn harg hdigits =>
              rcases hstand rfl with hmarked | halike
              · rw [harg] at hmarked
                cases hmarked
              · obtain ⟨other, hother, hvalue⟩ := (halike _).mp ⟨_, hdigits, rfl⟩
                rw [← hvalue]
                exact .standIn harg hother

theorem Shape.forall₂_denotes_of_respelled {shape : Shape}
    (hsame : List.Forall₂ Respelled args args')
    (hstand : shape = .wordPair → (∀ arg ∈ args, isMarked arg = true) ∨ StandAlike first first')
    (h : List.Forall₂ (shape.slot first).Denotes args numbers) :
    List.Forall₂ (shape.slot first').Denotes args' numbers := by
  induction hsame generalizing numbers with
  | nil =>
      cases h
      exact .nil
  | cons harg _ ih =>
      cases h with
      | cons hnumber hnumbers =>
          refine .cons (denotes_of_respelled harg ?_ hnumber) (ih ?_ hnumbers)
          · intro hshape
            exact (hstand hshape).imp_left fun hmarked => hmarked _ List.mem_cons_self
          · intro hshape
            exact (hstand hshape).imp_left fun hmarked other hother =>
              hmarked other (List.mem_cons_of_mem _ hother)

/-! ## Commands -/

theorem forall_isMarked_of_respelled (hsame : List.Forall₂ Respelled args args')
    (h : ∀ arg ∈ args, isMarked arg = true) : ∀ arg ∈ args', isMarked arg = true := by
  induction hsame with
  | nil => exact h
  | cons harg _ ih =>
      intro other hother
      rcases List.mem_cons.mp hother with rfl | hrest
      · cases harg with
        | same => exact h _ List.mem_cons_self
        | literal _ _ _ => exact isMarked_cons _
      · exact ih (fun arg hmem => h arg (List.mem_cons_of_mem _ hmem)) other hrest

/-- That the first of some arguments may be respelled in a command of a shape:
    no other argument needs it to stand in, or it stands in alike. -/
def Shape.AllowsRespelling (shape : Shape) (args args' : List Text) : Prop :=
  shape = .wordPair →
    (∀ arg ∈ args, isMarked arg = true) ∨ StandAlike (args.headD []) (args'.headD [])

theorem Shape.AllowsRespelling.symm {shape : Shape} (h : shape.AllowsRespelling args args')
    (hsame : List.Forall₂ Respelled args args') : shape.AllowsRespelling args' args := by
  intro hshape
  rcases h hshape with hmarked | halike
  · exact .inl (forall_isMarked_of_respelled hsame hmarked)
  · exact .inr fun number => (halike number).symm

theorem encode_of_respelled {opcode : Opcode} (hargs : HasArguments raw args)
    (hargs' : HasArguments raw' args') (hsame : List.Forall₂ Respelled args args')
    (hallows : opcode.shape.AllowsRespelling args args') (h : opcode.encode raw = .ok payload) :
    opcode.encode raw' = .ok payload := by
  obtain ⟨found, hfound, hcount, hencode⟩ := encode_eq_ok_iff.mp h
  obtain rfl : found = args := hfound.unique hargs
  have hcount' : args'.length = opcode.shape.argumentCount :=
    hsame.length_eq.symm.trans hcount
  obtain ⟨numbers, hnumbers⟩ := Slot.forall_accepts_iff.mp
    ((Shape.exists_encode_ok_iff hcount).mp ⟨payload, hencode⟩)
  have hnumbers' := Shape.forall₂_denotes_of_respelled hsame hallows hnumbers
  obtain ⟨common, hcommon, hcommon'⟩ :=
    Shape.encode_of_denotes hcount hcount' hnumbers hnumbers'
  rw [hcommon] at hencode
  rw [← hencode]
  exact encode_eq_ok_iff.mpr ⟨args', hargs', hcount', hcommon'⟩

/-! ## Digits that stand in -/

/-- Of a marked literal, the second to fifth digit stand in, if there are as
    many. -/
theorem standIn_marked_iff (h : isHexadecimal digits = true) :
    StandIn (hexMarker :: digits) digits'
      ↔ ∃ c back, digits = c :: (digits' ++ back) ∧ digits'.length = 4 := by
  have hhex := isHexDigit_of_isHexadecimal h
  have hmarker : utf8Length [hexMarker] = 1 := by decide
  constructor
  · rintro ⟨front, back, hfirst, hfront, hlength, -⟩
    rw [length_toUtf8] at hfront
    -- two bytes in front are the marker and one digit
    match front, hfirst, hfront with
    | [_], hfirst, hfront =>
        obtain ⟨rfl, -⟩ := List.cons.inj hfirst
        rw [hmarker] at hfront
        cases hfront
    | marker :: c :: rest, hfirst, hfront =>
        obtain ⟨rfl, hdigits⟩ := List.cons.inj hfirst
        have hc := utf8Size_of_isHexDigit (hhex c (by rw [hdigits]; simp))
        have hx : hexMarker.utf8Size = 1 := by decide
        rw [utf8Length_cons, utf8Length_cons, hc, hx] at hfront
        have hrest : rest = [] := eq_nil_of_utf8Length (by omega)
        subst hrest
        exact ⟨c, back, hdigits, hlength⟩
  · rintro ⟨c, back, rfl, hlength⟩
    refine ⟨[hexMarker, c], back, rfl, ?_, hlength, ?_⟩
    · have hc := utf8Size_of_isHexDigit (hhex c List.mem_cons_self)
      rw [length_toUtf8, utf8Length_cons, utf8Length_cons, hc]
      decide
    · intro d hd
      exact hhex d (List.mem_cons_of_mem c (List.mem_append_left back hd))

theorem StandsFor.of_length_eq (hdigits : isHexadecimal digits = true)
    (hdigits' : isHexadecimal digits' = true) (hlength : digits.length = digits'.length)
    (hvalue : hexValue digits = hexValue digits') (h : StandsFor (hexMarker :: digits) number) :
    StandsFor (hexMarker :: digits') number := by
  obtain ⟨found, hfound, rfl⟩ := h
  obtain ⟨c, back, rfl, hfour⟩ := (standIn_marked_iff hdigits).mp hfound
  rw [List.length_cons, List.length_append, hfour] at hlength
  match digits', hdigits', hlength, hvalue with
  | c' :: rest, hdigits', hlength, hvalue =>
      have hrest : rest = rest.take 4 ++ rest.drop 4 := (List.take_append_drop 4 rest).symm
      have hcount : rest.length = 4 + back.length := (Nat.succ.inj hlength).symm
      have htail := (@hexValue_append_inj [c] [c'] (found ++ back) rest
        (by rw [List.length_append, hfour, hcount]) hvalue).2
      rw [hrest] at htail
      have hslice := (hexValue_append_inj (by rw [List.length_drop]; omega) htail).1
      refine ⟨rest.take 4, (standIn_marked_iff hdigits').mpr ⟨c', rest.drop 4, ?_, ?_⟩,
        hslice.symm⟩
      · rw [← hrest]
      · rw [List.length_take]
        omega

/-- Marked literals of one value and one length stand in alike: the case of
    their digits does not matter. -/
theorem standAlike_of_length_eq (hdigits : isHexadecimal digits = true)
    (hdigits' : isHexadecimal digits' = true) (hlength : digits.length = digits'.length)
    (hvalue : hexValue digits = hexValue digits') :
    StandAlike (hexMarker :: digits) (hexMarker :: digits') := by
  intro number
  constructor
  · exact .of_length_eq hdigits hdigits' hlength hvalue
  · exact .of_length_eq hdigits' hdigits hlength.symm hvalue.symm

/-! ## Values of literals -/

/-- **A marked literal counts by its value.**  Respelled arguments are encoded
    to the same payload or refused alike, by every command; only where an
    argument of two words has no marker do the first arguments have to stand
    in alike. -/
theorem literals_count_by_value {opcode : Opcode} (hargs : HasArguments raw args)
    (hargs' : HasArguments raw' args') (hsame : List.Forall₂ Respelled args args')
    (hallows : opcode.shape.AllowsRespelling args args') :
    ∀ payload, opcode.encode raw = .ok payload ↔ opcode.encode raw' = .ok payload := by
  intro payload
  have hsame' : List.Forall₂ Respelled args' args := by
    refine List.Forall₂.flip (hsame.imp ?_)
    intro arg arg' h
    exact h.symm
  constructor
  · exact encode_of_respelled hargs hargs' hsame hallows
  · exact encode_of_respelled hargs' hargs hsame' (hallows.symm hsame)

/-- Other letters in the first argument, which stands in for the second one. -/
theorem literals_count_by_value_of_letter_case :
    HasArguments "(x0aBcD,7)".toList ["x0aBcD".toList, ['7']]
      ∧ HasArguments "READ_PARAM(x0AbCd,7)".toList ["x0AbCd".toList, ['7']]
      ∧ List.Forall₂ Respelled ["x0aBcD".toList, ['7']] ["x0AbCd".toList, ['7']]
      ∧ Opcode.readParameter.shape.AllowsRespelling ["x0aBcD".toList, ['7']]
        ["x0AbCd".toList, ['7']]
      ∧ Opcode.readParameter.encode "READ_PARAM(x0AbCd,7)".toList
        = .ok ⟨[0xAB, 0xCD, 0xAB, 0xCD, 0, 0], rfl⟩ := by
  have hargs : HasArguments "(x0aBcD,7)".toList ["x0aBcD".toList, ['7']] :=
    ⟨[], [], by decide, by decide, by decide, by decide⟩
  have hargs' : HasArguments "READ_PARAM(x0AbCd,7)".toList ["x0AbCd".toList, ['7']] :=
    ⟨"READ_PARAM".toList, [], by decide, by decide, by decide, by decide⟩
  have hsame : List.Forall₂ Respelled ["x0aBcD".toList, ['7']] ["x0AbCd".toList, ['7']] :=
    .cons (.literal rfl rfl rfl) (.cons (.same _) .nil)
  have hallows : Opcode.readParameter.shape.AllowsRespelling ["x0aBcD".toList, ['7']]
      ["x0AbCd".toList, ['7']] :=
    fun _ => .inr (standAlike_of_length_eq rfl rfl rfl rfl)
  exact ⟨hargs, hargs', hsame, hallows,
    (literals_count_by_value hargs hargs' hsame hallows _).mp rfl⟩

/-- A leading zero in the first argument decides whether it stands in for the
    second one. -/
theorem stand_in_sees_leading_zeros :
    ¬ ∀ (opcode : Opcode) (raw raw' : Text) (args args' : List Text), HasArguments raw args →
      HasArguments raw' args' → List.Forall₂ Respelled args args' →
        ∀ payload, opcode.encode raw = .ok payload ↔ opcode.encode raw' = .ok payload := by
  intro h
  have hargs : HasArguments "(x01234,0x9999)".toList ["x01234".toList, "0x9999".toList] :=
    ⟨[], [], by decide, by decide, by decide, by decide⟩
  have hargs' : HasArguments "(x1234,0x9999)".toList ["x1234".toList, "0x9999".toList] :=
    ⟨[], [], by decide, by decide, by decide, by decide⟩
  have hsame : List.Forall₂ Respelled ["x01234".toList, "0x9999".toList]
      ["x1234".toList, "0x9999".toList] :=
    .cons (.literal rfl rfl rfl) (.cons (.same _) .nil)
  have haccepted : Opcode.readParameter.encode "(x01234,0x9999)".toList
      = .ok ⟨[0x12, 0x34, 0x12, 0x34, 0, 0], rfl⟩ := rfl
  have hrefused : Opcode.readParameter.encode "(x1234,0x9999)".toList
      = .error (.badHexLiteral 2 "0x9999".toList .notDigits) := rfl
  have hsecond := (h _ _ _ _ _ hargs hargs' hsame _).mp haccepted
  rw [hrefused] at hsecond
  cases hsecond

/-! ## Where the spelling matters -/

/-- A word is told by its two bytes. -/
theorem highLow_inj {m n : Nat} (hm : m < 65536) (hn : n < 65536) (h : highLow m = highLow n) :
    m = n := by
  have hvalue {k : Nat} (hk : k < 65536) :
      (UInt8.ofNat (k / 256)).toNat = k / 256 ∧ (UInt8.ofNat (k % 256)).toNat = k % 256 :=
    ⟨UInt8.toNat_ofNat_of_lt' (show _ < 256 by omega),
      UInt8.toNat_ofNat_of_lt' (show _ < 256 by omega)⟩
  obtain ⟨hhigh, hlow⟩ := List.cons.inj h
  have hhigh := congrArg UInt8.toNat hhigh
  have hlow := congrArg UInt8.toNat (List.cons.inj hlow).1
  rw [(hvalue hm).1, (hvalue hn).1] at hhigh
  rw [(hvalue hm).2, (hvalue hn).2] at hlow
  omega

/-- Two arguments encode to the words that they denote. -/
theorem encode_pair_iff {opcode : Opcode} (hshape : opcode.shape = .wordPair) {second : Text}
    (hargs : HasArguments raw [first, second]) :
    opcode.encode raw = .ok payload
      ↔ ∃ m n, (Slot.word first).Denotes first m ∧ (Slot.word first).Denotes second n
        ∧ payload.bytes = highLow m ++ highLow n ++ [0, 0] := by
  have hcount : [first, second].length = opcode.shape.argumentCount := by rw [hshape]; rfl
  rw [encode_of_hasArguments hargs hcount, hshape]
  exact encodeWordPair_eq_ok_iff

theorem StandsFor.of_encode_imp {opcode : Opcode} (hshape : opcode.shape = .wordPair)
    {second : Text} (hargs : HasArguments raw [first, second])
    (hargs' : HasArguments raw' [first', second]) (hfirst : (Slot.word first).Accepts first)
    (hsecond : isMarked second = false)
    (himp : ∀ payload, opcode.encode raw = .ok payload → opcode.encode raw' = .ok payload)
    (h : StandsFor first number) : StandsFor first' number := by
  obtain ⟨digits, hdigits, rfl⟩ := h
  obtain ⟨m, hm⟩ := hfirst
  have hn : (Slot.word first).Denotes second (hexValue digits) := .standIn hsecond hdigits
  have hencode : opcode.encode raw
      = .ok ⟨highLow m ++ highLow (hexValue digits) ++ [0, 0], rfl⟩ :=
    (encode_pair_iff hshape hargs).mpr ⟨m, _, hm, hn, rfl⟩
  obtain ⟨m', n', -, hn', hbytes⟩ := (encode_pair_iff hshape hargs').mp (himp _ hencode)
  have hword : highLow (hexValue digits) = highLow n' :=
    congrArg (fun bytes => (bytes.drop 2).take 2) hbytes
  obtain rfl := highLow_inj (hn.lt rfl) (hn'.lt rfl) hword
  generalize hexValue digits = number at hn'
  cases hn' with
  | marked _ _ =>
      rw [isMarked_cons] at hsecond
      cases hsecond
  | standIn _ hdigits' => exact ⟨_, hdigits', rfl⟩

/-- **Nothing less will do than to stand in alike.**  Commands of two words
    whose first arguments are spelled otherwise, and whose second argument has
    no marker, encode alike only if the first arguments stand in alike. -/
theorem standAlike_of_encode_alike {opcode : Opcode} (hshape : opcode.shape = .wordPair)
    {second : Text} (hargs : HasArguments raw [first, second])
    (hargs' : HasArguments raw' [first', second]) (hsame : Respelled first first')
    (hfirst : (Slot.word first).Accepts first) (hsecond : isMarked second = false)
    (halike : ∀ payload, opcode.encode raw = .ok payload ↔ opcode.encode raw' = .ok payload) :
    StandAlike first first' := by
  intro number
  cases hsame with
  | same => exact Iff.rfl
  | @literal digits digits' hdigits hdigits' hvalue =>
      have hfirst' : (Slot.word (hexMarker :: digits')).Accepts (hexMarker :: digits') := by
        obtain ⟨m, hm⟩ := hfirst
        exact ⟨m, @Shape.denotes_of_respelled (hexMarker :: digits) _ _ _ _ .wordPair
          (.literal hdigits hdigits' hvalue) (fun _ => .inl (isMarked_cons digits)) hm⟩
      constructor
      · exact .of_encode_imp hshape hargs hargs' hfirst hsecond fun payload => (halike payload).mp
      · exact .of_encode_imp hshape hargs' hargs hfirst' hsecond fun payload => (halike payload).mpr

end Telecommand.Command
