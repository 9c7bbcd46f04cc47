import Telecommand.Proofs.Command.Encoding
import Telecommand.Proofs.Command.Slot

/-! # Spelled payloads

    Every payload that a shape can fill comes back from its own spelling
    (`encode_command`): two digits make a byte, four make a word, and the
    digits of whole fields pack into the bytes they were taken from. -/

namespace Telecommand

/-! ## Cutting digits -/

variable {α : Type}

/-- The parts together are what their lengths reach over. -/
theorem flatten_cutInto (counts : List Nat) (items : List α) :
    (cutInto counts items).flatten = items.take counts.sum := by
  induction counts generalizing items with
  | nil => simp [cutInto]
  | cons count rest ih =>
      rw [cutInto, List.flatten_cons, ih, List.sum_cons, List.take_add]

theorem mem_of_mem_cutInto {counts : List Nat} {items part : List α} {a : α}
    (hpart : part ∈ cutInto counts items) (ha : a ∈ part) : a ∈ items := by
  have hflat : a ∈ (cutInto counts items).flatten := List.mem_flatten.mpr ⟨part, hpart, ha⟩
  rw [flatten_cutInto] at hflat
  exact List.mem_of_mem_take hflat

theorem length_cutInto (counts : List Nat) (items : List α) :
    (cutInto counts items).length = counts.length := by
  induction counts generalizing items with
  | nil => rfl
  | cons count rest ih => rw [cutInto, List.length_cons, ih, List.length_cons]

namespace Command

open Text

/-! ## Six bytes -/

/-- A spelled byte reads back. -/
theorem readByte_spell (byte : UInt8) (position : Nat) :
    readByte position (hexMarker :: hexPair byte) = .ok byte := by
  have hhex : isHexadecimal (hexPair byte) = true :=
    isHexadecimal_of_digits (List.cons_ne_nil _ _) fun _ hc => isHexDigit_of_mem_hexPair hc
  have hfits : ∀ bits ∈ Slot.byte.bits?, hexValue (hexPair byte) < 2 ^ bits := by
    rintro bits ⟨⟩
    rw [hexValue_hexPair]
    exact byte.toNat_lt
  rw [readByte_of_denotes (.marked hhex hfits), hexValue_hexPair, UInt8.ofNat_toNat]

theorem readEach_readByte_spell (bytes : Bytes) (position : Nat) :
    readEach readByte position (bytes.map fun byte => hexMarker :: hexPair byte)
      = .ok bytes := by
  induction bytes generalizing position with
  | nil => rfl
  | cons byte rest ih => exact readEach_cons (readByte_spell byte position) (ih _)

/-- Six bytes come back from their spelling. -/
theorem encodeSixBytes_spell (payload : Payload) :
    encodeSixBytes (Shape.sixBytes.spell payload) = .ok payload := by
  have hspell : Shape.sixBytes.spell payload
      = payload.bytes.map fun byte => hexMarker :: hexPair byte := by
    obtain ⟨bytes, hbytes⟩ := payload
    match bytes, hbytes with
    | [p0, p1, p2, p3, p4, p5], _ => rfl
  rw [encodeSixBytes, hspell, readEach_readByte_spell]
  exact congrArg Except.ok payload.ofBytes_bytes

/-! ## Two words -/

/-- A word of a high and a low byte has these two bytes. -/
theorem wordBytes_ofNat (high low : UInt8) :
    wordBytes (UInt16.ofNat (high.toNat * 256 + low.toNat)) = [high, low] := by
  have hhigh : high.toNat < 256 := high.toNat_lt
  have hlow : low.toNat < 256 := low.toNat_lt
  have hword : (UInt16.ofNat (high.toNat * 256 + low.toNat)).toNat
      = high.toNat * 256 + low.toNat := by
    rw [UInt16.toNat_ofNat']
    exact Nat.mod_eq_of_lt (by omega)
  have hfront : (UInt16.ofNat (high.toNat * 256 + low.toNat) >>> 8).toUInt8 = high := by
    refine UInt8.toNat_inj.mp ?_
    rw [UInt16.toNat_toUInt8, UInt16.toNat_shiftRight, hword, Nat.shiftRight_eq_div_pow]
    show (high.toNat * 256 + low.toNat) / 256 % 256 = high.toNat
    omega
  have hback : (UInt16.ofNat (high.toNat * 256 + low.toNat)).toUInt8 = low := by
    refine UInt8.toNat_inj.mp ?_
    rw [UInt16.toNat_toUInt8, hword]
    omega
  rw [wordBytes, hfront, hback]

/-- A spelled word reads back. -/
theorem readWord_spell (first : Text) (high low : UInt8) (position : Nat) :
    readWord first position (hexMarker :: (hexPair high ++ hexPair low))
      = .ok (UInt16.ofNat (high.toNat * 256 + low.toNat)) := by
  have hhigh : high.toNat < 256 := high.toNat_lt
  have hlow : low.toNat < 256 := low.toNat_lt
  have hhex : isHexadecimal (hexPair high ++ hexPair low) = true := by
    refine isHexadecimal_of_digits (List.cons_ne_nil _ _) ?_
    intro c hc
    rcases List.mem_append.mp hc with hc | hc
    · exact isHexDigit_of_mem_hexPair hc
    · exact isHexDigit_of_mem_hexPair hc
  have hvalue : hexValue (hexPair high ++ hexPair low) = high.toNat * 256 + low.toNat := by
    rw [hexValue_append, hexValue_hexPair, hexValue_hexPair]
    rfl
  have hfits : ∀ bits ∈ (Slot.word first).bits?,
      hexValue (hexPair high ++ hexPair low) < 2 ^ bits := by
    rintro bits ⟨⟩
    rw [hvalue]
    show _ < 65536
    omega
  rw [readWord_of_denotes (.marked hhex hfits), hvalue]

/-- Two words come back from their spelling if zeros follow them. -/
theorem encodeWordPair_spell {payload : Payload} (h : payload.bytes.drop 4 = [0, 0]) :
    encodeWordPair (Shape.wordPair.spell payload) = .ok payload := by
  obtain ⟨bytes, hbytes⟩ := payload
  match bytes, hbytes, h with
  | [p0, p1, p2, p3, p4, p5], hbytes, h =>
      have hzero : [p4, p5] = [0, 0] := h
      have hspell : Shape.wordPair.spell ⟨[p0, p1, p2, p3, p4, p5], hbytes⟩
          = [hexMarker :: (hexPair p0 ++ hexPair p1),
              hexMarker :: (hexPair p2 ++ hexPair p3)] := rfl
      rw [encodeWordPair, hspell,
        readEach_cons (readWord_spell _ p0 p1 1) (readEach_cons (readWord_spell _ p2 p3 2) rfl)]
      show Except.ok (Payload.ofBytes (wordBytes _ ++ (wordBytes _ ++ []))) = .ok _
      rw [wordBytes_ofNat, wordBytes_ofNat]
      refine congrArg Except.ok (Payload.ofBytes_eq ?_)
      show [p0, p1, p2, p3] ++ [p4, p5] = [p0, p1, p2, p3] ++ [0, 0]
      rw [hzero]

/-! ## Digits of bytes -/

theorem length_flatMap_hexPair (bytes : Bytes) :
    (bytes.flatMap hexPair).length = 2 * bytes.length := by
  induction bytes with
  | nil => rfl
  | cons byte rest ih =>
      rw [List.flatMap_cons, List.length_append, ih, List.length_cons]
      show 2 + 2 * rest.length = 2 * (rest.length + 1)
      omega

theorem isHexDigit_of_mem_flatMap_hexPair {bytes : Bytes} {c : Char}
    (h : c ∈ bytes.flatMap hexPair) : isHexDigit c = true := by
  obtain ⟨byte, -, hbyte⟩ := List.mem_flatMap.mp h
  exact isHexDigit_of_mem_hexPair hbyte

/-- Twice as many digits are the digits of the first bytes. -/
theorem take_flatMap_hexPair (bytes : Bytes) (count : Nat) :
    (bytes.flatMap hexPair).take (2 * count) = (bytes.take count).flatMap hexPair := by
  induction bytes generalizing count with
  | nil => simp
  | cons byte rest ih =>
      cases count with
      | zero => rfl
      | succ count =>
          rw [List.flatMap_cons, List.take_succ_cons, List.flatMap_cons, ← ih count]
          rfl

/-! ## Bit fields -/

/-- Digits that are cut into fields of four bits a digit give their bits
    field by field. -/
theorem readEach_fieldBits_spell {widths : List UInt32}
    (hwhole : ∀ width ∈ widths, 0 < width.toNat ∧ 4 ∣ width.toNat)
    {digits : Text} (hdigits : ∀ c ∈ digits, isHexDigit c = true)
    (hlength : (widths.map (·.toNat / 4)).sum ≤ digits.length) (position : Nat) :
    readEach (fun position (arg, width) => fieldBits width.toNat position arg) position
        (((cutInto (widths.map (·.toNat / 4)) digits).map (hexMarker :: ·)).zip widths)
      = .ok ((cutInto (widths.map (·.toNat / 4)) digits).map fun part =>
          part.flatMap Bits.ofDigit) := by
  induction widths generalizing digits position with
  | nil => rfl
  | cons width rest ih =>
      obtain ⟨hpos, count, hcount⟩ := hwhole width List.mem_cons_self
      have hdiv : width.toNat / 4 = count := by omega
      rw [List.map_cons, List.sum_cons, hdiv] at hlength
      have hpart : (digits.take count).length = count := by
        rw [List.length_take]
        omega
      have hne : digits.take count ≠ [] := by
        rintro hnil
        rw [hnil] at hpart
        exact absurd hpart (by rw [List.length_nil]; omega)
      have hhex : isHexadecimal (digits.take count) = true :=
        isHexadecimal_of_digits hne fun c hc => hdigits c (List.mem_of_mem_take hc)
      -- the field is as wide as its digits, so that no bit is cut off or added
      have hfit : Bits.fit width.toNat ((digits.take count).flatMap Bits.ofDigit)
          = (digits.take count).flatMap Bits.ofDigit :=
        Bits.fit_of_length_eq (by rw [Bits.length_flatMap_ofDigit, hpart, hcount])
      rw [List.map_cons, hdiv]
      refine readEach_cons ?_ ?_
      · show fieldBits width.toNat position (hexMarker :: digits.take count) = _
        rw [fieldBits_marked hhex, hfit]
      · exact ih (fun w hw => hwhole w (List.mem_cons_of_mem width hw))
          (fun c hc => hdigits c (List.mem_of_mem_drop hc))
          (by rw [List.length_drop]; omega) (position + 1)

/-- Bit fields of whole digits come back from their spelling if zeros fill
    what they leave. -/
theorem encodeBitFields_spell {widths : List UInt32} {padding : UInt32} (filled free : Nat)
    (hwhole : ∀ width ∈ widths, 0 < width.toNat ∧ 4 ∣ width.toNat)
    (hfilled : (widths.map (·.toNat / 4)).sum = 2 * filled) (hfree : padding.toNat = 8 * free)
    (hsix : filled + free = 6)
    {payload : Payload} (h : payload.bytes.drop filled = List.replicate free 0) :
    encodeBitFields widths padding ((Shape.bitFields widths padding).spell payload)
      = .ok payload := by
  have hspell : (Shape.bitFields widths padding).spell payload
      = (cutInto (widths.map (·.toNat / 4)) (payload.bytes.flatMap hexPair)).map
          (hexMarker :: ·) := rfl
  have hlength : (widths.map (·.toNat / 4)).sum ≤ (payload.bytes.flatMap hexPair).length := by
    rw [length_flatMap_hexPair, payload.length_bytes]
    omega
  -- the cuts do not show in the bits: these are the bits of the filled bytes
  have hfields : ((cutInto (widths.map (·.toNat / 4)) (payload.bytes.flatMap hexPair)).map
        fun part => part.flatMap Bits.ofDigit).flatten
      = ((payload.bytes.take filled).flatMap hexPair).flatMap Bits.ofDigit := by
    rw [← take_flatMap_hexPair, ← hfilled, ← flatten_cutInto]
    simp only [List.flatten_eq_flatMap, List.flatMap_assoc, List.flatMap_map, id]
  rw [encodeBitFields, packFields, hspell, readEach_fieldBits_spell hwhole
    (fun _ hc => isHexDigit_of_mem_flatMap_hexPair hc) hlength]
  show Except.ok (Payload.ofBytes (Bits.toBytes (_ ++ List.replicate padding.toNat false)))
    = .ok payload
  rw [hfields, hfree, Bits.toBytes_flatMap_hexPair, Bits.toBytes_replicate_false, ← h,
    List.take_append_drop, Payload.ofBytes_bytes]

/-! ## Commands -/

/-- Every argument of a spelling is the marker and then digits. -/
theorem exists_of_mem_spell {shape : Shape} {payload : Payload} {arg : Text}
    (h : arg ∈ shape.spell payload) :
    ∃ part, arg = hexMarker :: part ∧ ∀ c ∈ part, isHexDigit c = true := by
  obtain ⟨part, hpart, rfl⟩ := List.mem_map.mp h
  exact ⟨part, rfl, fun c hc =>
    isHexDigit_of_mem_flatMap_hexPair (mem_of_mem_cutInto hpart hc)⟩

/-- A character that is neither the marker nor a digit is in no spelling. -/
theorem notMem_of_mem_spell {shape : Shape} {payload : Payload} {arg : Text} {c : Char}
    (h : arg ∈ shape.spell payload) (hmarker : c ≠ hexMarker) (hc : isHexDigit c = false) :
    c ∉ arg := by
  obtain ⟨part, rfl, hpart⟩ := exists_of_mem_spell h
  rintro hmem
  rcases List.mem_cons.mp hmem with heq | hmem
  · exact hmarker heq
  · rw [hpart c hmem] at hc
    exact Bool.noConfusion hc

theorem length_spell (shape : Shape) (payload : Payload) :
    (shape.spell payload).length = shape.argumentCount := by
  rw [Shape.spell, List.length_map, length_cutInto]
  cases shape with
  | wordPair => rfl
  | bitFields widths padding => exact List.length_map _
  | sixBytes => rfl

/-- The arguments of a command are the spelling of its payload. -/
theorem hasArguments_command (packet : Packet) :
    HasArguments packet.command (packet.opcode.shape.spell packet.payload) := by
  refine ⟨_, [], rfl, ?_, ?_, ?_⟩
  · cases packet.opcode <;> decide
  · intro arg harg
    exact ⟨notMem_of_mem_spell harg (by decide) (by decide),
      notMem_of_mem_spell harg (by decide) (by decide)⟩
  · intro hempty
    obtain ⟨part, hpart, -⟩ := exists_of_mem_spell
      (hempty ▸ List.mem_singleton_self [] : [] ∈ packet.opcode.shape.spell packet.payload)
    exact List.cons_ne_nil _ _ hpart.symm

/-- The command that is written for a packet encodes to its payload. -/
theorem encode_command {packet : Packet} (h : packet.IsExpressible) :
    packet.opcode.encode packet.command = .ok packet.payload := by
  refine encode_eq_ok_iff.mpr ⟨_, hasArguments_command packet, length_spell _ _, ?_⟩
  obtain ⟨opcode, payload⟩ := packet
  cases opcode with
  | changeParameter => exact encodeWordPair_spell (h rfl)
  | readParameter => exact encodeWordPair_spell (h rfl)
  | flashErase =>
      exact encodeBitFields_spell 4 2 (by simp) rfl rfl rfl (h rfl)
  | flashDump =>
      have hnone : payload.bytes.drop 6 = [] :=
        List.drop_of_length_le (Nat.le_of_eq payload.length_bytes)
      exact encodeBitFields_spell 6 0 (by simp) rfl rfl rfl hnone
  | _ => exact encodeSixBytes_spell payload

end Command

end Telecommand
