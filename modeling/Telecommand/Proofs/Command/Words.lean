import Telecommand.Proofs.Command.Acceptance
import Telecommand.Proofs.Command.Spelling

/-! # Two words

    A command of two words carries the words that its two arguments denote,
    the high byte of each first, and zeros behind
    (`encodeWordPair_eq_ok_iff`).  The words may as well be copied into the
    payload one by one, as soon as each is read: no copy ever reaches beyond
    the payload (`copyWords?_eq`, `encodeInPlace?_eq`). -/

namespace Telecommand.Command

open Text

variable {first second : Text} {args : List Text} {bytes : Bytes} {payload : Payload}

/-! ## Words and their bytes -/

/-- The two bytes of a number of sixteen bits, the high one first. -/
def highLow (number : Nat) : Bytes := [UInt8.ofNat (number / 256), UInt8.ofNat (number % 256)]

theorem wordBytes_eq (word : UInt16) : wordBytes word = highLow word.toNat := by
  have hword : word.toNat < 65536 := word.toNat_lt
  have hhigh : (UInt8.ofNat (word.toNat / 256)).toNat = word.toNat / 256 :=
    UInt8.toNat_ofNat_of_lt' (show _ < 256 by omega)
  have hlow : (UInt8.ofNat (word.toNat % 256)).toNat = word.toNat % 256 :=
    UInt8.toNat_ofNat_of_lt' (show _ < 256 by omega)
  have hsplit := wordBytes_ofNat (UInt8.ofNat (word.toNat / 256)) (UInt8.ofNat (word.toNat % 256))
  rw [hhigh, hlow, Nat.div_add_mod', UInt16.ofNat_toNat] at hsplit
  exact hsplit

/-- Two arguments encode to the bytes of the words that they denote. -/
theorem encodeWordPair_eq_ok_iff :
    encodeWordPair [first, second] = .ok payload
      ↔ ∃ m n, (Slot.word first).Denotes first m ∧ (Slot.word first).Denotes second n
        ∧ payload.bytes = highLow m ++ highLow n ++ [0, 0] := by
  have hread {words : List UInt16} :
      readEach (readWord first) 1 [first, second] = .ok words
        ↔ List.Forall₂ (fun arg word => (Slot.word first).Denotes arg word.toNat)
          [first, second] words :=
    readEach_eq_ok_iff fun position arg word => @readWord_eq_ok_iff first arg position word
  have hbytes (high low : UInt16) :
      (Payload.ofBytes ([high, low].flatMap wordBytes)).bytes
        = highLow high.toNat ++ highLow low.toNat ++ [0, 0] := by
    rw [← wordBytes_eq, ← wordBytes_eq]
    exact Payload.bytes_ofBytes (by decide : 4 ≤ 6)
  show (readEach (readWord first) 1 [first, second] >>= fun words => _) = _ ↔ _
  rw [bind_eq_ok_iff]
  constructor
  · rintro ⟨words, hwords, h⟩
    obtain rfl : Payload.ofBytes (words.flatMap wordBytes) = payload := Except.ok.inj h
    cases hread.mp hwords with
    | @cons _ high _ _ hhigh hrest =>
        cases hrest with
        | @cons _ low _ _ hlow hnil =>
            cases hnil
            exact ⟨_, _, hhigh, hlow, hbytes high low⟩
  · rintro ⟨m, n, hm, hn, hpayload⟩
    have hm' : (UInt16.ofNat m).toNat = m := UInt16.toNat_ofNat_of_lt' (hm.lt rfl)
    have hn' : (UInt16.ofNat n).toNat = n := UInt16.toNat_ofNat_of_lt' (hn.lt rfl)
    refine ⟨[UInt16.ofNat m, UInt16.ofNat n], hread.mpr ?_, congrArg Except.ok ?_⟩
    · exact .cons (by rwa [hm']) (.cons (by rwa [hn']) .nil)
    · have hsame : (Payload.ofBytes ([UInt16.ofNat m, UInt16.ofNat n].flatMap wordBytes)).bytes
          = payload.bytes := by
        rw [hbytes, hm', hn', hpayload]
      rw [← Payload.ofBytes_bytes payload, ← hsame, Payload.ofBytes_bytes]

/-! ## Copying words into place -/

/-- Bytes with a part copied over those from an offset on, if there are as
    many. -/
def copyAt? (offset : Nat) (part bytes : Bytes) : Option Bytes :=
  if offset + part.length ≤ bytes.length then
    some (bytes.take offset ++ part ++ bytes.drop (offset + part.length))
  else none

/-- Words that are read one after the other, each copied over its own two
    bytes as soon as it is read.  There is no result if a copy reaches beyond
    the bytes. -/
def copyWords? (first : Text) : Nat → List Text → Bytes → Option (Except Refusal Bytes)
  | _, [], bytes => some (.ok bytes)
  | index, arg :: rest, bytes =>
      match readWord first (index + 1) arg with
      | .error refusal => some (.error refusal)
      | .ok word => (copyAt? (2 * index) (wordBytes word) bytes).bind
          (copyWords? first (index + 1) rest)

/-- A command of two words whose payload is filled in place, from six zeros. -/
def Opcode.encodeInPlace? (opcode : Opcode) (raw : Text) : Option (Except Refusal Bytes) :=
  match arguments raw with
  | .error refusal => some (.error refusal)
  | .ok args =>
      if args.length ≠ opcode.shape.argumentCount then
        some (.error (.wrongArgumentCount opcode.shape.argumentCount args.length))
      else copyWords? (args.headD []) 0 args (List.replicate 6 0)

/-- A copy that stays within the bytes leaves the part behind what was in
    front of it, and what comes after it as it was. -/
theorem exists_copyAt? {offset : Nat} {part : Bytes} (h : offset + part.length ≤ bytes.length) :
    ∃ copied, copyAt? offset part bytes = some copied ∧ copied.length = bytes.length
      ∧ copied.take (offset + part.length) = bytes.take offset ++ part
      ∧ ∀ count, copied.drop (offset + part.length + count)
        = bytes.drop (offset + part.length + count) := by
  have hfront : (bytes.take offset ++ part).length = offset + part.length := by
    rw [List.length_append, List.length_take]
    omega
  refine ⟨_, if_pos h, ?_, ?_, ?_⟩
  · rw [List.length_append, hfront, List.length_drop]
    omega
  · rw [← hfront, List.take_left]
  · intro count
    rw [← List.drop_drop, ← hfront, List.drop_left, hfront, List.drop_drop]

/-- **Where there are two bytes for each word, every copy stays within them**,
    and the words stand there in order. -/
theorem copyWords?_eq {index : Nat} (h : 2 * (index + args.length) ≤ bytes.length) :
    copyWords? first index args bytes
      = some ((readEach (readWord first) (index + 1) args).map fun words =>
          bytes.take (2 * index) ++ words.flatMap wordBytes
            ++ bytes.drop (2 * (index + words.length))) := by
  induction args generalizing index bytes with
  | nil =>
      show some (Except.ok bytes)
        = some (.ok (bytes.take (2 * index) ++ [] ++ bytes.drop (2 * (index + 0))))
      rw [List.append_nil, Nat.add_zero, List.take_append_drop]
  | cons arg rest ih =>
      rw [List.length_cons] at h
      cases hword : readWord first (index + 1) arg with
      | error refusal =>
          rw [copyWords?, hword, readEach, hword]
          rfl
      | ok word =>
          have hroom : 2 * index + (wordBytes word).length ≤ bytes.length := by
            show 2 * index + 2 ≤ bytes.length
            omega
          obtain ⟨copied, hcopied, hlength, htake, hdrop⟩ := exists_copyAt? hroom
          have hrest := @ih copied (index + 1) (by omega)
          have hfront : copied.take (2 * (index + 1)) = bytes.take (2 * index) ++ wordBytes word :=
            htake
          rw [copyWords?, hword, readEach, hword]
          show (copyAt? (2 * index) (wordBytes word) bytes).bind _ = _
          rw [hcopied]
          show copyWords? first (index + 1) rest copied = _
          rw [hrest, hfront]
          cases readEach (readWord first) (index + 1 + 1) rest with
          | error refusal => rfl
          | ok words =>
              -- what is behind the last word has not been touched by the first copy either
              have hback : copied.drop (2 * (index + 1 + words.length))
                  = bytes.drop (2 * (index + (words.length + 1))) := by
                have hoffset : 2 * (index + 1 + words.length)
                    = 2 * index + (wordBytes word).length + 2 * words.length := by
                  show _ = 2 * index + 2 + 2 * words.length
                  omega
                have hoffset' : 2 * (index + (words.length + 1))
                    = 2 * index + (wordBytes word).length + 2 * words.length := by
                  show _ = 2 * index + 2 + 2 * words.length
                  omega
                rw [hoffset, hoffset', hdrop]
              show some (Except.ok (_ ++ words.flatMap wordBytes ++ copied.drop _))
                = some (.ok (_ ++ (wordBytes word ++ words.flatMap wordBytes)
                  ++ bytes.drop (2 * (index + (words.length + 1)))))
              rw [hback, List.append_assoc (bytes.take _)]

/-- Filling in place comes to the payload of the command, and never to a copy
    beyond it. -/
theorem encodeInPlace?_eq {opcode : Opcode} (hshape : opcode.shape = .wordPair) (raw : Text) :
    opcode.encodeInPlace? raw = some ((opcode.encode raw).map Payload.bytes) := by
  rcases lacksArguments_or_hasArguments raw with hlacks | ⟨args, hargs⟩
  · rw [Opcode.encodeInPlace?, arguments_eq_error_iff.mpr ⟨hlacks, rfl⟩,
      encode_of_lacksArguments hlacks]
    rfl
  · rw [Opcode.encodeInPlace?, arguments_eq_ok_iff.mpr hargs]
    show (if args.length ≠ opcode.shape.argumentCount then _ else _) = _
    by_cases hcount : args.length = opcode.shape.argumentCount
    · rw [if_neg (not_not_intro hcount), encode_of_hasArguments hargs hcount]
      rw [hshape] at hcount ⊢
      have htwo : args.length = 2 := hcount
      rw [copyWords?_eq (by rw [htwo]; decide)]
      show _ = some (Except.map Payload.bytes (encodeWordPair args))
      rw [encodeWordPair]
      cases hwords : readEach (readWord (args.headD [])) 1 args with
      | error refusal => rfl
      | ok words =>
          have hlength : words.length = 2 := by
            rw [← (readEach_eq_ok hwords).length_eq, htwo]
          obtain ⟨high, low, rfl⟩ := List.length_eq_two.mp hlength
          rfl
    · rw [if_pos hcount, encode_of_argumentCount_ne hargs hcount]
      rfl

/-! ## Commands of two words -/

/-- **Two arguments are two words, the first standing in for an argument
    without a marker.**  A command of two words encodes exactly if it has two
    arguments, each a marked literal of at most sixteen bits, or without a
    marker while digits stand in for it in the first one; it then carries the
    bytes of the words that they denote, and zeros behind.  Filling the
    payload in place goes beyond it for no text whatsoever. -/
theorem two_arguments_are_two_words {opcode : Opcode} (hshape : opcode.shape = .wordPair)
    (raw : Text) :
    ((∃ payload, opcode.encode raw = .ok payload)
        ↔ ∃ first second, HasArguments raw [first, second]
          ∧ (Slot.word first).Accepts first ∧ (Slot.word first).Accepts second)
      ∧ (∀ payload, opcode.encode raw = .ok payload
        ↔ ∃ first second m n, HasArguments raw [first, second]
          ∧ (Slot.word first).Denotes first m ∧ (Slot.word first).Denotes second n
          ∧ payload.bytes = highLow m ++ highLow n ++ [0, 0])
      ∧ opcode.encodeInPlace? raw = some ((opcode.encode raw).map Payload.bytes) := by
  refine ⟨?_, ?_, encodeInPlace?_eq hshape raw⟩
  · rw [exists_encode_ok_iff, hshape]
    constructor
    · rintro ⟨args, hargs, hcount, haccepts⟩
      match args, hcount with
      | [first, second], _ =>
          exact ⟨first, second, hargs, haccepts first (by simp), haccepts second (by simp)⟩
    · rintro ⟨first, second, hargs, hfirst, hsecond⟩
      refine ⟨[first, second], hargs, rfl, ?_⟩
      intro arg harg
      rcases List.mem_pair.mp harg with rfl | rfl
      · exact hfirst
      · exact hsecond
  · intro payload
    rw [encode_eq_ok_iff, hshape]
    constructor
    · rintro ⟨args, hargs, hcount, hencode⟩
      match args, hcount with
      | [first, second], _ =>
          obtain ⟨m, n, hm, hn, hpayload⟩ := encodeWordPair_eq_ok_iff.mp hencode
          exact ⟨first, second, m, n, hargs, hm, hn, hpayload⟩
    · rintro ⟨first, second, m, n, hargs, hm, hn, hpayload⟩
      exact ⟨[first, second], hargs, rfl,
        encodeWordPair_eq_ok_iff.mpr ⟨m, n, hm, hn, hpayload⟩⟩

/-- Digits that stand in behind one character of two bytes, in front of more
    text, and a marked literal with leading zeros. -/
theorem two_arguments_are_two_words_of_stand_in :
    Opcode.readParameter.shape = .wordPair
      ∧ Opcode.readParameter.encode "(é12fF!,x00042)".toList
        = .ok ⟨[0x12, 0xFF, 0x00, 0x42, 0, 0], rfl⟩ := by
  refine ⟨rfl, ((two_arguments_are_two_words rfl _).2.1 _).mpr
    ⟨"é12fF!".toList, "x00042".toList, 0x12FF, 0x42, ?_, ?_, ?_, rfl⟩⟩
  · exact ⟨[], [], by decide, by decide, by decide, by decide⟩
  · have hdigits : StandIn "é12fF!".toList "12fF".toList :=
      ⟨['é'], ['!'], by decide, by rw [length_toUtf8]; decide, rfl,
        isHexDigit_of_isHexadecimal rfl⟩
    exact .standIn (by decide) hdigits
  · exact .marked rfl (by decide)

end Telecommand.Command
