import Telecommand.Proofs.Command.Spelling
import Telecommand.Proofs.Script.Outcome
import Telecommand.Proofs.Text.Lines

/-! # Expressible packets

    The script that is written for a packet list compiles to this list, in
    either delay mode and without diagnostics, if each packet leaves zero
    what its shape has no room for.  No script makes any other packet.  So
    scripts express exactly the lists of expressible packets
    (`ofSource_write_and_expressible`). -/

namespace Telecommand.Script

open Command Text

/-! ## Bare lines -/

/-- A call without blanks is the text of its line.  What stands before the
    parenthesis is the keyword, and it decides whether the line is a
    comment. -/
theorem Line.ofRaw_call {front back : Text} (number : Nat)
    (hbare : ∀ c ∈ front ++ '(' :: back, isBlank c = false) (hfront : '(' ∉ front)
    (hmark : front.head? ≠ some commentMark) :
    (ofRaw number (front ++ '(' :: back)).text = front ++ '(' :: back
      ∧ (ofRaw number (front ++ '(' :: back)).isSilent = false
      ∧ (ofRaw number (front ++ '(' :: back)).keyword = front := by
  have htext : (ofRaw number (front ++ '(' :: back)).text = front ++ '(' :: back :=
    compact_eq_self_iff.mpr hbare
  have hcomment : (ofRaw number (front ++ '(' :: back)).isComment = false := by
    show decide ((trimStart (front ++ '(' :: back)).head? = some commentMark) = false
    rw [← head?_compact, compact_eq_self_iff.mpr hbare, decide_eq_false_iff_not]
    intro hhead
    cases front with
    | nil => exact absurd (Option.some.inj hhead) (by decide)
    | cons c rest => exact hmark hhead
  refine ⟨htext, ?_, ?_⟩
  · rw [isSilent, hcomment, htext, Bool.false_or, decide_eq_false_iff_not]
    exact List.append_ne_nil_of_right_ne_nil _ (List.cons_ne_nil _ _)
  · rw [keyword, htext, before_append _ hfront]

/-- A text without blanks can be a line of a script. -/
theorem notMem_of_bare {raw : Text} (h : ∀ c ∈ raw, isBlank c = false) :
    '\n' ∉ raw ∧ raw.getLast? ≠ some '\r' := by
  constructor
  · intro hmem
    exact absurd (h _ hmem) (by decide)
  · intro hlast
    exact absurd (h _ (List.mem_of_getLast? hlast)) (by decide)

/-! ## Directives -/

theorem bare_directive (delay : UInt64) : ∀ c ∈ directive delay, isBlank c = false := by
  have hkeyword : ∀ c ∈ delayKeyword, isBlank c = false :=
    compact_eq_self_iff.mp (by decide)
  intro c hc
  rw [directive, List.mem_append, List.mem_append, List.mem_cons, List.mem_singleton] at hc
  rcases hc with (hc | rfl | hc) | rfl
  · exact hkeyword c hc
  · decide
  · exact isBlank_of_isHexDigit (isHexDigit_of_mem_decimal hc)
  · decide

theorem directive_eq_call (delay : UInt64) :
    directive delay = delayKeyword ++ '(' :: (decimal delay.toNat ++ [')']) := by
  simp [directive]

/-- The argument of a written directive is its delay. -/
theorem arguments_directive (delay : UInt64) :
    arguments (directive delay) = .ok [decimal delay.toNat] :=
  arguments_decimal [] (by decide : '(' ∉ delayKeyword) (isDecimal_decimal delay.toNat)

/-- A written directive sets its delay. -/
theorem outcomeOf_directive (delay : UInt64) : outcomeOf (directive delay) = .delay delay := by
  have hbare := bare_directive delay
  rw [directive_eq_call] at hbare
  have hcall := Line.ofRaw_call 1 hbare (by decide) (by decide)
  rw [← directive_eq_call] at hcall
  obtain ⟨htext, hsilent, hkeyword⟩ := hcall
  have hdelay : (Line.ofRaw 1 (directive delay)).delay? = some delay := by
    have hlt : delay.toNat < UInt64.size := delay.toNat_lt
    simp only [Line.delay?, htext, arguments_directive, isDecimal_decimal, decimalValue_decimal,
      hlt, decide_true, Bool.and_self, if_true, UInt64.ofNat_toNat]
  rw [outcomeOf, Line.outcome_eq_delay_iff, Line.statement, hsilent,
    if_neg Bool.false_ne_true, if_pos hkeyword, hdelay]

/-! ## Commands -/

theorem bare_command (packet : Packet) : ∀ c ∈ packet.command, isBlank c = false := by
  have hkeyword : ∀ c ∈ packet.opcode.keyword, isBlank c = false := by
    refine compact_eq_self_iff.mp ?_
    cases packet.opcode <;> decide
  have hargs : ∀ c, isBlank c = true →
      c ∉ [','].intercalate (packet.opcode.shape.spell packet.payload) := by
    intro c hc
    refine notMem_intercalate ?_ ?_
    · rintro rfl
      exact absurd hc (by decide)
    · intro arg harg
      refine notMem_of_mem_spell harg ?_ ?_
      · rintro rfl
        exact absurd hc (by decide)
      · cases hdigit : isHexDigit c with
        | false => rfl
        | true =>
            rw [isBlank_of_isHexDigit hdigit] at hc
            exact Bool.noConfusion hc
  intro c hc
  rw [Packet.command, List.mem_append, List.mem_append, List.mem_cons, List.mem_singleton] at hc
  rcases hc with (hc | rfl | hc) | rfl
  · exact hkeyword c hc
  · decide
  · cases hblank : isBlank c with
    | false => rfl
    | true => exact absurd hc (hargs c hblank)
  · decide

theorem command_eq_call (packet : Packet) :
    packet.command = packet.opcode.keyword
      ++ '(' :: ([','].intercalate (packet.opcode.shape.spell packet.payload) ++ [')']) := by
  simp [Packet.command]

/-- An opcode is asked for by its keyword, which opens no comment, holds no
    parenthesis and is not that of the directive. -/
theorem keyword_spec (opcode : Opcode) :
    Opcode.ofKeyword? opcode.keyword = some opcode
      ∧ opcode.keyword.head? ≠ some commentMark
      ∧ '(' ∉ opcode.keyword
      ∧ opcode.keyword ≠ delayKeyword := by
  cases opcode <;> decide

/-- A written command of an expressible packet sends it. -/
theorem outcomeOf_command {packet : Packet} (h : packet.IsExpressible) :
    outcomeOf packet.command = .packet packet := by
  obtain ⟨hopcode, hmark, hfront, hdelay⟩ := keyword_spec packet.opcode
  have hbare := bare_command packet
  rw [command_eq_call] at hbare
  have hcall := Line.ofRaw_call 1 hbare hfront hmark
  rw [← command_eq_call] at hcall
  obtain ⟨htext, hsilent, hkeyword⟩ := hcall
  have hstatement : (Line.ofRaw 1 packet.command).statement = .ok (.send packet.opcode) := by
    rw [Line.statement, hsilent, if_neg Bool.false_ne_true, hkeyword, if_neg hdelay, hopcode]
  rw [outcomeOf, Line.outcome_eq_packet_iff, htext]
  exact ⟨hstatement, encode_command h⟩

/-! ## Whole scripts -/

/-- The lines of a written script. -/
theorem lines_write (packets : List TimedPacket) :
    (write packets).lines
      = packets.flatMap fun timed => [directive timed.delay, timed.packet.command] := by
  have hended : write packets
      = (packets.flatMap fun timed => [directive timed.delay, timed.packet.command]).flatMap
          (· ++ ['\n']) := by
    rw [write, List.flatMap_assoc]
    congr 1
    funext timed
    simp [writePacket]
  rw [hended, lines_ended]
  intro line hline
  obtain ⟨timed, -, hmem⟩ := List.mem_flatMap.mp hline
  rcases List.mem_pair.mp hmem with rfl | rfl
  · exact notMem_of_bare (bare_directive timed.delay)
  · exact notMem_of_bare (bare_command timed.packet)

/-- Delays and packets in turn send each packet with the delay before it,
    whether delays last or not. -/
theorem emissions_turns (mode : DelayMode) (waiting : UInt64) (packets : List TimedPacket) :
    emissions mode waiting
        (packets.flatMap fun timed => [.delay timed.delay, .packet timed.packet])
      = packets := by
  induction packets generalizing waiting with
  | nil => rfl
  | cons timed rest ih =>
      rw [List.flatMap_cons]
      show timed :: emissions mode _ (rest.flatMap _) = timed :: rest
      rw [ih]

/-- Where no outcome has a fault there are no diagnostics. -/
theorem diagnostics_eq_nil {raws : List Text}
    (h : ∀ raw ∈ raws, (outcomeOf raw).fault? = none) :
    (numbered raws).filterMap Line.diagnostic? = [] := by
  rw [List.filterMap_eq_nil_iff]
  intro line hline
  have hmem : line.outcome ∈ raws.map outcomeOf := by
    rw [← map_outcome_numbered]
    exact List.mem_map_of_mem hline
  obtain ⟨raw, hraw, houtcome⟩ := List.mem_map.mp hmem
  rw [Line.diagnostic?, ← houtcome, h raw hraw]
  rfl

/-- **Scripts express exactly the expressible packets.**  A list of them, of
    any length and with any delays, is what the script written for it
    compiles to, without diagnostics and in either delay mode; and every
    packet of every compilation is expressible. -/
theorem ofSource_write_and_expressible :
    (∀ packets : List TimedPacket, (∀ timed ∈ packets, timed.packet.IsExpressible) →
        ∀ mode, Compilation.ofSource mode (write packets) = ⟨packets, []⟩)
      ∧ ∀ (mode : DelayMode) (source : Text),
          ∀ timed ∈ (Compilation.ofSource mode source).packets,
            timed.packet.IsExpressible := by
  constructor
  · intro packets hpackets mode
    -- in a written script delays and packets take turns
    have houtcomes : (packets.flatMap fun timed =>
          [directive timed.delay, timed.packet.command]).map outcomeOf
        = packets.flatMap fun timed => [.delay timed.delay, .packet timed.packet] := by
      rw [List.map_flatMap]
      refine List.flatMap_congr ?_
      intro timed htimed
      rw [List.map_cons, List.map_cons, outcomeOf_directive,
        outcomeOf_command (hpackets timed htimed), List.map_nil]
    rw [Compilation.ofSource, lines_write, Compilation.ofLines_eq, houtcomes, emissions_turns,
      diagnostics_eq_nil]
    intro raw hraw
    obtain ⟨timed, htimed, hmem⟩ := List.mem_flatMap.mp hraw
    rcases List.mem_pair.mp hmem with rfl | rfl
    · rw [outcomeOf_directive]
      rfl
    · rw [outcomeOf_command (hpackets timed htimed)]
      rfl
  · intro mode source timed htimed
    rw [Compilation.ofSource, Compilation.ofLines_eq] at htimed
    -- whatever line sent the packet, its arguments were encoded
    obtain ⟨raw, -, houtcome⟩ := List.mem_map.mp (packet_mem_of_mem_emissions htimed)
    exact isExpressible_of_encode (Line.outcome_eq_packet_iff.mp houtcome).2

/-- An erase command with the longest delay and a dump command, in the
    one-shot mode; the erase command that is sent leaves its tail zero. -/
theorem ofSource_write_of_erase_and_dump :
    (∀ timed ∈ [TimedPacket.mk 18446744073709551615
          ⟨.flashErase, ⟨[0x12, 0x34, 0x56, 0x78, 0, 0], rfl⟩⟩,
        ⟨0, ⟨.flashDump, ⟨[1, 2, 3, 4, 5, 6], rfl⟩⟩⟩], timed.packet.IsExpressible)
      ∧ Compilation.ofSource .oneShot
          (write [⟨18446744073709551615, ⟨.flashErase, ⟨[0x12, 0x34, 0x56, 0x78, 0, 0], rfl⟩⟩⟩,
            ⟨0, ⟨.flashDump, ⟨[1, 2, 3, 4, 5, 6], rfl⟩⟩⟩])
        = ⟨[⟨18446744073709551615, ⟨.flashErase, ⟨[0x12, 0x34, 0x56, 0x78, 0, 0], rfl⟩⟩⟩,
            ⟨0, ⟨.flashDump, ⟨[1, 2, 3, 4, 5, 6], rfl⟩⟩⟩], []⟩
      ∧ (Packet.mk .flashErase ⟨[0x12, 0x34, 0x56, 0x78, 0, 0], rfl⟩).IsExpressible :=
  ⟨by decide, ofSource_write_and_expressible.1 _ (by decide) .oneShot,
    ofSource_write_and_expressible.2 .sticky "Send_FLASH_ERASE(x1, x234, x5, x678)".toList
      ⟨0, .flashErase, ⟨[0x12, 0x34, 0x56, 0x78, 0, 0], rfl⟩⟩ (by decide)⟩

end Telecommand.Script
