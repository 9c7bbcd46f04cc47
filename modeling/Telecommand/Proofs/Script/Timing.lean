import Telecommand.Proofs.Script.Blank
import Telecommand.Proofs.Script.Delay
import Telecommand.Proofs.Script.Expressible
import Telecommand.Proofs.Script.Stream
import Mathlib.Data.List.Forall2

/-! # Timing and content

    When packets are sent has no influence on which are sent, nor on what is
    reported about a script (`timing_keeps_content`).  The packets without
    their delays are those of the outcomes (`map_packet_emissions`), so
    neither the delay mode nor a delay has a part in them.  Between the two
    delay modes an invariant relates the delays that wait: the one-shot delay
    is zero, or the sticky one (`forall₂_emissions`). -/

namespace Telecommand.Script

open Command Text

/-! ## Two delay modes -/

/-- A packet as the two delay modes send it: the same packet, with no delay
    at all in the one-shot mode or with one delay in both. -/
def SentAlike (sticky oneShot : TimedPacket) : Prop :=
  oneShot.packet = sticky.packet ∧ (oneShot.delay = 0 ∨ oneShot.delay = sticky.delay)

/-- **The invariant between the modes.**  As long as the one-shot delay that
    waits is zero or the sticky one, the packets go out alike: a directive
    makes the two delays equal, a packet makes the one-shot delay zero, and
    no other line changes either. -/
theorem forall₂_emissions {sticky oneShot : UInt64} (h : oneShot = 0 ∨ oneShot = sticky)
    (outcomes : List Outcome) :
    List.Forall₂ SentAlike (emissions .sticky sticky outcomes)
      (emissions .oneShot oneShot outcomes) := by
  induction outcomes generalizing sticky oneShot with
  | nil => exact .nil
  | cons outcome rest ih =>
      rw [emissions, emissions]
      cases outcome with
      | skipped => exact ih h
      | rejected fault => exact ih h
      | delay microseconds => exact ih (.inr rfl)
      | packet sent => exact .cons ⟨rfl, h⟩ (ih (.inl rfl))

/-! ## Other timings of a line -/

/-- A line is a directive that is accepted when it is not silent, has the
    keyword of directives and a delay. -/
theorem Line.statement_eq_wait_iff {line : Line} {microseconds : UInt64} :
    line.statement = .ok (.wait microseconds)
      ↔ line.isSilent = false ∧ line.keyword = delayKeyword
        ∧ line.delay? = some microseconds := by
  rw [statement]
  cases hsilent : line.isSilent with
  | true => simp
  | false =>
      by_cases hkeyword : line.keyword = delayKeyword
      · cases hdelay : line.delay? <;> simp [hkeyword]
      · cases hopcode : Opcode.ofKeyword? line.keyword <;> simp [hkeyword]

/-- The text before the parenthesis of an accepted directive is the keyword
    of directives. -/
theorem compact_front_of_delaySet? {front back : Text} (hfront : '(' ∉ front)
    (h : (delaySet? (front ++ '(' :: back)).isSome = true) : compact front = delayKeyword := by
  obtain ⟨microseconds, hset⟩ := Option.isSome_iff_exists.mp h
  have hwait : (Line.ofRaw 1 (front ++ '(' :: back)).statement = .ok (.wait microseconds) := by
    rw [delaySet?] at hset
    split at hset
    · rename_i hstatement
      rw [hstatement, Option.some.inj hset]
    · exact absurd hset (by simp)
  have hkeyword := (Line.statement_eq_wait_iff.mp hwait).2.1
  have hbare : '(' ∉ compact front := fun hmem => hfront (List.mem_filter.mp hmem).1
  have htext : (Line.ofRaw 1 (front ++ '(' :: back)).text
      = compact front ++ '(' :: compact back :=
    compact_append front ('(' :: back)
  rwa [Line.keyword, htext, before_append _ hbare] at hkeyword

/-- A directive with a decimal number of 64 bits is accepted, wherever it has
    blanks and whatever stands behind it. -/
theorem outcomeOf_wait {front number : Text} (back : Text)
    (hfront : compact front = delayKeyword) (hdecimal : isDecimal (compact number) = true)
    (hsize : decimalValue (compact number) < UInt64.size) :
    outcomeOf (front ++ '(' :: number ++ ')' :: back)
      = .delay (UInt64.ofNat (decimalValue (compact number))) := by
  have hcompact : compact (front ++ '(' :: number ++ ')' :: back)
      = delayKeyword ++ '(' :: (compact number ++ ')' :: compact back) := by
    rw [compact_call, hfront, List.append_assoc, List.cons_append]
  have hbare : ∀ c ∈ delayKeyword ++ '(' :: (compact number ++ ')' :: compact back),
      isBlank c = false := by
    rw [← hcompact]
    exact compact_eq_self_iff.mp (compact_compact _)
  have harguments := arguments_decimal (compact back) (by decide : '(' ∉ delayKeyword) hdecimal
  rw [List.append_assoc] at harguments
  obtain ⟨htext, hsilent, hkeyword⟩ :=
    Line.ofRaw_call 1 hbare (by decide : '(' ∉ delayKeyword) (by decide)
  rw [outcomeOf, ← Line.ofRaw_compact, hcompact, Line.outcome_eq_delay_iff,
    Line.statement_eq_wait_iff]
  refine ⟨hsilent, hkeyword, ?_⟩
  have hcall : arguments (Line.ofRaw 1
      (delayKeyword ++ '(' :: (compact number ++ ')' :: compact back))).text
        = .ok [compact number] := by
    rw [htext]
    exact harguments
  simp only [Line.delay?, hcall, hdecimal, hsize, decide_true, Bool.and_self, if_true]

/-- How a line gets another timing: a directive that is accepted gets another
    number of 64 bits between its parentheses, or gives way to a blank line;
    any other line stays. -/
inductive Retimed : Text → Text → Prop
  | kept (raw : Text) : Retimed raw raw
  | renumbered {front number other back : Text} (hfront : '(' ∉ front) (hnumber : ')' ∉ number)
      (haccepted : (delaySet? (front ++ '(' :: number ++ ')' :: back)).isSome = true)
      (hdecimal : isDecimal (compact other) = true)
      (hsize : decimalValue (compact other) < UInt64.size) :
      Retimed (front ++ '(' :: number ++ ')' :: back) (front ++ '(' :: other ++ ')' :: back)
  | blanked {raw blank : Text} (haccepted : (delaySet? raw).isSome = true)
      (hblank : compact blank = []) : Retimed raw blank

/-- Whether an outcome is timing at most: it neither sends nor reports
    anything. -/
def Outcome.isTiming : Outcome → Bool
  | skipped | delay _ => true
  | packet _ | rejected _ => false

theorem Outcome.packet?_of_isTiming {outcome : Outcome} (h : outcome.isTiming = true) :
    outcome.packet? = none := by
  cases outcome with
  | packet sent => cases h
  | _ => rfl

theorem Outcome.fault?_of_isTiming {outcome : Outcome} (h : outcome.isTiming = true) :
    outcome.fault? = none := by
  cases outcome with
  | rejected fault => cases h
  | _ => rfl

theorem isTiming_of_delaySet? {raw : Text} (h : (delaySet? raw).isSome = true) :
    (outcomeOf raw).isTiming = true := by
  rw [delaySet?_eq_delay?] at h
  cases houtcome : outcomeOf raw with
  | delay microseconds => rfl
  | _ =>
      rw [houtcome] at h
      exact Bool.noConfusion h

/-- A line either stays, or is timing before and after. -/
theorem Retimed.eq_or_isTiming {raw other : Text} (h : Retimed raw other) :
    other = raw
      ∨ (outcomeOf raw).isTiming = true ∧ (outcomeOf other).isTiming = true := by
  cases h with
  | kept => exact .inl rfl
  | @renumbered front number other back hfront hnumber haccepted hdecimal hsize =>
      have hkeyword : compact front = delayKeyword := by
        rw [List.append_assoc] at haccepted
        exact compact_front_of_delaySet? hfront haccepted
      refine .inr ⟨isTiming_of_delaySet? haccepted, ?_⟩
      rw [outcomeOf_wait back hkeyword hdecimal hsize]
      rfl
  | blanked haccepted hblank =>
      refine .inr ⟨isTiming_of_delaySet? haccepted, ?_⟩
      rw [outcomeOf_of_compact_eq_nil hblank]
      rfl

/-! ## Other timings of a script -/

variable {raws others : List Text}

theorem packets_of_retimed (h : List.Forall₂ Retimed raws others) :
    (others.map outcomeOf).filterMap Outcome.packet?
      = (raws.map outcomeOf).filterMap Outcome.packet? := by
  induction h with
  | nil => rfl
  | cons hline _ ih =>
      rw [List.map_cons, List.map_cons, List.filterMap_cons, List.filterMap_cons, ih]
      rcases hline.eq_or_isTiming with rfl | ⟨hraw, hother⟩
      · rfl
      · rw [Outcome.packet?_of_isTiming hraw, Outcome.packet?_of_isTiming hother]

/-- The lines keep their numbers, so the diagnostics stay as well. -/
theorem diagnostics_of_retimed (h : List.Forall₂ Retimed raws others) :
    (numbered others).filterMap Line.diagnostic?
      = (numbered raws).filterMap Line.diagnostic? := by
  rw [numbered, numbered]
  generalize 1 = start
  induction h generalizing start with
  | nil => rfl
  | @cons raw other raws others hline _ ih =>
      rw [List.zipIdx_cons, List.zipIdx_cons, List.map_cons, List.map_cons, List.filterMap_cons,
        List.filterMap_cons, ih]
      rcases hline.eq_or_isTiming with rfl | ⟨hraw, hother⟩
      · rfl
      · have hnone {text : Text} (htext : (outcomeOf text).isTiming = true) :
            (Line.ofRaw start text).diagnostic? = none := by
          rw [Line.diagnostic?, outcome_ofRaw, Outcome.fault?_of_isTiming htext]
          rfl
        rw [hnone hraw, hnone hother]

/-- **Timing never influences content.**  The two delay modes give one source
    the same diagnostics and the same bytes, and their packets agree one by
    one, where the one-shot delay is zero or the sticky one.  And in either
    mode, other numbers in its directives, or blank lines in place of them,
    leave the bytes and the diagnostics of a source as they are. -/
theorem timing_keeps_content :
    (∀ source : Text,
      (Compilation.ofSource .oneShot source).diagnostics
          = (Compilation.ofSource .sticky source).diagnostics
        ∧ (Compilation.ofSource .oneShot source).byteStream
            = (Compilation.ofSource .sticky source).byteStream
        ∧ List.Forall₂ SentAlike (Compilation.ofSource .sticky source).packets
            (Compilation.ofSource .oneShot source).packets)
      ∧ ∀ (mode : DelayMode) (source other : Text),
          List.Forall₂ Retimed (source.splitOn '\n') (other.splitOn '\n') →
            (Compilation.ofSource mode other).byteStream
                = (Compilation.ofSource mode source).byteStream
              ∧ (Compilation.ofSource mode other).diagnostics
                = (Compilation.ofSource mode source).diagnostics := by
  constructor
  · intro source
    rw [Compilation.byteStream_eq, Compilation.byteStream_eq, Compilation.ofSource,
      Compilation.ofSource, Compilation.ofLines_eq, Compilation.ofLines_eq,
      map_packet_emissions, map_packet_emissions]
    exact ⟨rfl, rfl, forall₂_emissions (.inl rfl) _⟩
  · intro mode source other h
    rw [Compilation.byteStream_eq, Compilation.byteStream_eq, Compilation.ofSource_eq_ofLines,
      Compilation.ofSource_eq_ofLines, Compilation.ofLines_eq, Compilation.ofLines_eq,
      map_packet_emissions, map_packet_emissions, packets_of_retimed h]
    exact ⟨rfl, diagnostics_of_retimed h⟩

/-- A directive with blanks and a text behind it gets the greatest number, one
    gives way to a blank line, and the lines that send and that are rejected
    stay. -/
theorem timing_keeps_content_of_two_directives :
    List.Forall₂ Retimed
        ("Wait _us( 1 0 ) on\nPOWER_OFF(0,0,0,0,0,0)\nWait_us(3)\nREBOOT()".toList.splitOn '\n')
        ("Wait _us(018446744073709551615) on\nPOWER_OFF(0,0,0,0,0,0)\n \nREBOOT()".toList.splitOn
          '\n')
      ∧ Compilation.byteStream (.ofSource .sticky
            "Wait _us(018446744073709551615) on\nPOWER_OFF(0,0,0,0,0,0)\n \nREBOOT()".toList)
          = Compilation.byteStream (.ofSource .sticky
            "Wait _us( 1 0 ) on\nPOWER_OFF(0,0,0,0,0,0)\nWait_us(3)\nREBOOT()".toList) := by
  have hnumber : Retimed "Wait _us( 1 0 ) on".toList "Wait _us(018446744073709551615) on".toList :=
    @Retimed.renumbered "Wait _us".toList " 1 0 ".toList "018446744073709551615".toList
      " on".toList (by decide) (by decide) (by decide) (by decide) (by decide)
  have hblank : Retimed "Wait_us(3)".toList " ".toList := .blanked (by decide) (by decide)
  have h : List.Forall₂ Retimed
      ("Wait _us( 1 0 ) on\nPOWER_OFF(0,0,0,0,0,0)\nWait_us(3)\nREBOOT()".toList.splitOn '\n')
      ("Wait _us(018446744073709551615) on\nPOWER_OFF(0,0,0,0,0,0)\n \nREBOOT()".toList.splitOn
        '\n') :=
    .cons hnumber (.cons (.kept _) (.cons hblank (.cons (.kept _) .nil)))
  exact ⟨h, (timing_keeps_content.2 .sticky _ _ h).1⟩

end Telecommand.Script
