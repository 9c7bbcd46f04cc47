import Telecommand.Proofs.Command.Spelling
import Telecommand.Proofs.Script.Blank
import Mathlib.Data.List.TakeWhile

/-! # The grammar of lines

    What the text of a line asks for, by rules that do not follow the reader:
    `Asks` has a rule for each of the five things that a line can come to.
    Every line is read by these rules (`statements_follow_grammar`), so
    exactly one of them applies to it; in particular, a keyword counts only as
    a whole, and not as a part of another one. -/

namespace Telecommand.Script

open Command Text

variable {text keyword : Text} {opcode : Opcode} {result : Except Fault Statement}

/-! ## Rules -/

/-- That a text has a keyword: it is what stands before the first opening
    parenthesis, or all of the text if none opens. -/
def HasKeyword (text keyword : Text) : Prop :=
  '(' ∉ keyword ∧ (text = keyword ∨ ∃ rest, text = keyword ++ '(' :: rest)

/-- That a keyword is the one of a command: its name, or its name behind the
    mark. -/
def Names (keyword : Text) (opcode : Opcode) : Prop :=
  keyword = opcode.name ∨ keyword = Opcode.sendMark ++ opcode.name

/-- That a text is a directive for a delay: one or more decimal digits alone
    stand between its parentheses, and anything behind them. -/
def IsDirective (text : Text) (microseconds : UInt64) : Prop :=
  ∃ digits back, text = delayKeyword ++ '(' :: digits ++ ')' :: back
    ∧ isDecimal digits = true ∧ decimalValue digits = microseconds.toNat

/-- That a text says nothing: it is empty, or a comment. -/
def IsSilent (text : Text) : Prop :=
  text = [] ∨ text.head? = some commentMark

/-- What a text without blanks asks for, or which fault it has. -/
inductive Asks (text : Text) : Except Fault Statement → Prop
  /-- A silent text asks for nothing. -/
  | nothing (hsilent : IsSilent text) : Asks text (.ok .nothing)
  /-- A directive asks for its delay. -/
  | wait {microseconds : UInt64} (hdirective : IsDirective text microseconds) :
      Asks text (.ok (.wait microseconds))
  /-- With the keyword of directives, anything else is a bad delay. -/
  | badDelay (hkeyword : HasKeyword text delayKeyword)
      (hnone : ∀ microseconds, ¬ IsDirective text microseconds) :
      Asks text (.error .badDelay)
  /-- The keyword of a command asks for the command. -/
  | send {keyword : Text} {opcode : Opcode} (hkeyword : HasKeyword text keyword)
      (hnames : Names keyword opcode) : Asks text (.ok (.send opcode))
  /-- Any other keyword is unknown. -/
  | unknownKeyword {keyword : Text} (hspeaks : ¬ IsSilent text)
      (hkeyword : HasKeyword text keyword) (hdelay : keyword ≠ delayKeyword)
      (hcommand : ∀ opcode, ¬ Names keyword opcode) :
      Asks text (.error (.unknownKeyword keyword))

/-! ## Keywords -/

theorem before_of_notMem {mark : Char} (h : mark ∉ text) : before mark text = text := by
  rw [before, List.takeWhile_eq_self_iff]
  intro c hc
  have hne : c ≠ mark := by
    rintro rfl
    exact h hc
  simpa using hne

/-- What stands before a mark is the same with more text behind the mark. -/
theorem before_append_of_mem {mark : Char} (h : mark ∈ text) (extra : Text) :
    before mark (text ++ extra) = before mark text := by
  obtain ⟨front, back, rfl, hfront⟩ := List.eq_append_cons_of_mem h
  rw [List.append_assoc, List.cons_append, before_append _ hfront, before_append _ hfront]

/-- The keyword of a text is what its line takes for it. -/
theorem hasKeyword_iff : HasKeyword text keyword ↔ before '(' text = keyword := by
  constructor
  · rintro ⟨hbare, rfl | ⟨rest, rfl⟩⟩
    · exact before_of_notMem hbare
    · exact before_append rest hbare
  · rintro rfl
    cases hcut : cut? '(' text with
    | none =>
        have hbare := cut?_eq_none_iff.mp hcut
        rw [before_of_notMem hbare]
        exact ⟨hbare, .inl rfl⟩
    | some parts =>
        obtain ⟨front, back⟩ := parts
        have hfront := notMem_of_cut? hcut
        rw [eq_of_cut? hcut, before_append back hfront]
        exact ⟨hfront, .inr ⟨back, rfl⟩⟩

/-- A name does not begin with the mark that may stand in front of it. -/
theorem name_ne_sendMark_append (opcode : Opcode) (rest : Text) :
    opcode.name ≠ Opcode.sendMark ++ rest := by
  intro h
  have hmark : Opcode.sendMark.isPrefixOf opcode.name = true := by
    rw [h, List.isPrefixOf_iff_prefix]
    exact List.prefix_append _ _
  have hnone : Opcode.sendMark.isPrefixOf opcode.name = false := by
    cases opcode <;> decide
  rw [hmark] at hnone
  cases hnone

/-- **A keyword finds exactly the command that it names.** -/
theorem ofKeyword?_eq_some_iff : Opcode.ofKeyword? keyword = some opcode ↔ Names keyword opcode := by
  rw [Opcode.ofKeyword?, Opcode.ofName?_eq_some_iff, Names]
  cases hrest : Opcode.sendMark.isPrefixOf? keyword with
  | none =>
      rw [Option.getD_none]
      constructor
      · rintro rfl
        exact .inl rfl
      · rintro (rfl | rfl)
        · rfl
        · rw [List.isPrefixOf?_eq_some_iff_append_eq.mpr rfl] at hrest
          cases hrest
  | some rest =>
      obtain rfl := List.isPrefixOf?_eq_some_iff_append_eq.mp hrest
      rw [Option.getD_some]
      constructor
      · rintro rfl
        exact .inr rfl
      · rintro (hname | hname)
        · exact absurd hname.symm (name_ne_sendMark_append opcode rest)
        · exact (List.append_cancel_left hname).symm

/-- The keyword of directives names no command. -/
theorem not_names_delayKeyword (opcode : Opcode) : ¬ Names delayKeyword opcode := by
  rw [← ofKeyword?_eq_some_iff]
  have hnone : Opcode.ofKeyword? delayKeyword = none := by decide
  rw [hnone]
  intro h
  cases h

theorem Names.exists_head? (h : Names keyword opcode) :
    ∃ c, keyword.head? = some c ∧ c ≠ commentMark := by
  rcases h with rfl | rfl
  · cases opcode <;> exact ⟨_, rfl, by decide⟩
  · exact ⟨'S', rfl, by decide⟩

/-- A text whose keyword begins with another character than the comment mark
    is not silent. -/
theorem HasKeyword.not_isSilent (h : HasKeyword text keyword) {c : Char}
    (hhead : keyword.head? = some c) (hc : c ≠ commentMark) : ¬ IsSilent text := by
  have htext : text.head? = some c := by
    obtain ⟨rest, rfl⟩ := List.head?_eq_some_iff.mp hhead
    obtain ⟨-, rfl | ⟨back, rfl⟩⟩ := h
    · rfl
    · rfl
  rintro (rfl | hcomment)
  · cases htext
  · rw [htext] at hcomment
    exact hc (Option.some.inj hcomment)

/-! ## Directives -/

/-- A text is a directive when it has the keyword of directives and its line
    has a delay. -/
theorem isDirective_iff {line : Line} {microseconds : UInt64} :
    IsDirective line.text microseconds
      ↔ line.keyword = delayKeyword ∧ line.delay? = some microseconds := by
  constructor
  · rintro ⟨digits, back, htext, hdecimal, hvalue⟩
    have hargs := arguments_decimal back (by decide : '(' ∉ delayKeyword) hdecimal
    rw [← htext] at hargs
    constructor
    · rw [Line.keyword, htext, List.append_assoc]
      exact before_append _ (by decide)
    · have hlt : microseconds.toNat < UInt64.size := microseconds.toNat_lt
      simp only [Line.delay?, hargs, hdecimal, hvalue, hlt, decide_true, Bool.and_self, if_true,
        UInt64.ofNat_toNat]
  · rintro ⟨hkeyword, hdelay⟩
    cases hargs : arguments line.text with
    | error refusal => simp [Line.delay?, hargs] at hdelay
    | ok args =>
        match args, hargs with
        | [], hargs => simp [Line.delay?, hargs] at hdelay
        | _ :: _ :: _, hargs => simp [Line.delay?, hargs] at hdelay
        | [digits], hargs =>
            simp only [Line.delay?, hargs, Option.ite_none_right_eq_some, Bool.and_eq_true,
              decide_eq_true_eq] at hdelay
            obtain ⟨⟨hdecimal, hsize⟩, hdelay⟩ := hdelay
            obtain ⟨front, back, htext, hfront, -, -⟩ := arguments_eq_ok_iff.mp hargs
            rw [List.intercalate_singleton] at htext
            have hdirective : front = delayKeyword := by
              rw [← hkeyword, Line.keyword, htext, List.append_assoc]
              exact (before_append _ hfront).symm
            refine ⟨digits, back, by rw [htext, hdirective], hdecimal, ?_⟩
            rw [← Option.some.inj hdelay]
            exact (UInt64.toNat_ofNat_of_lt' hsize).symm

/-! ## Lines -/

theorem isSilent_ofRaw_iff {number : Nat} {raw : Text} :
    (Line.ofRaw number raw).isSilent = true ↔ IsSilent (compact raw) := by
  show ((decide ((trimStart raw).head? = some commentMark)) || decide (compact raw = [])) = true ↔ _
  rw [Bool.or_eq_true, decide_eq_true_eq, decide_eq_true_eq, ← head?_compact, IsSilent, or_comm]

/-- What a line comes to is what its text asks for. -/
theorem asks_statement (number : Nat) (raw : Text) :
    Asks (compact raw) (Line.ofRaw number raw).statement := by
  have hdirective {microseconds : UInt64} :
      IsDirective (compact raw) microseconds ↔ _ :=
    @isDirective_iff (Line.ofRaw number raw) microseconds
  rw [Line.statement]
  cases hsilent : (Line.ofRaw number raw).isSilent with
  | true => exact .nothing (isSilent_ofRaw_iff.mp hsilent)
  | false =>
      have hspeaks : ¬ IsSilent (compact raw) := by
        rw [← @isSilent_ofRaw_iff number, hsilent]
        exact Bool.false_ne_true
      rw [if_neg Bool.false_ne_true]
      by_cases hkeyword : (Line.ofRaw number raw).keyword = delayKeyword
      · rw [if_pos hkeyword]
        cases hdelay : (Line.ofRaw number raw).delay? with
        | some microseconds => exact .wait (hdirective.mpr ⟨hkeyword, hdelay⟩)
        | none =>
            refine .badDelay (hasKeyword_iff.mpr hkeyword) ?_
            intro microseconds h
            rw [(hdirective.mp h).2] at hdelay
            cases hdelay
      · rw [if_neg hkeyword]
        cases hopcode : Opcode.ofKeyword? (Line.ofRaw number raw).keyword with
        | some opcode =>
            exact .send (hasKeyword_iff.mpr rfl) (ofKeyword?_eq_some_iff.mp hopcode)
        | none =>
            refine .unknownKeyword hspeaks (hasKeyword_iff.mpr rfl) hkeyword ?_
            intro opcode hnames
            rw [ofKeyword?_eq_some_iff.mpr hnames] at hopcode
            cases hopcode

/-- What a text asks for is what a line with this text comes to. -/
theorem Asks.statement_eq {number : Nat} {raw : Text} (h : Asks (compact raw) result) :
    (Line.ofRaw number raw).statement = result := by
  have hkeyword_eq {keyword : Text} (hkeyword : HasKeyword (compact raw) keyword) :
      (Line.ofRaw number raw).keyword = keyword :=
    hasKeyword_iff.mp hkeyword
  have hloud (hspeaks : ¬ IsSilent (compact raw)) : (Line.ofRaw number raw).isSilent = false := by
    rw [← Bool.not_eq_true, isSilent_ofRaw_iff]
    exact hspeaks
  have hdirective {microseconds : UInt64} :
      IsDirective (compact raw) microseconds ↔ _ :=
    @isDirective_iff (Line.ofRaw number raw) microseconds
  have hdelayLoud (hkeyword : HasKeyword (compact raw) delayKeyword) :
      (Line.ofRaw number raw).isSilent = false :=
    hloud (hkeyword.not_isSilent rfl (by decide : 'W' ≠ commentMark))
  rw [Line.statement]
  cases h with
  | nothing hsilent => rw [isSilent_ofRaw_iff.mpr hsilent, if_pos rfl]
  | wait h =>
      obtain ⟨hkeyword, hdelay⟩ := hdirective.mp h
      rw [hdelayLoud (hasKeyword_iff.mpr hkeyword), if_neg Bool.false_ne_true, if_pos hkeyword,
        hdelay]
  | badDelay hkeyword hnone =>
      have hdelay : (Line.ofRaw number raw).delay? = none := by
        cases hdelay : (Line.ofRaw number raw).delay? with
        | none => rfl
        | some microseconds =>
            exact absurd (hdirective.mpr ⟨hkeyword_eq hkeyword, hdelay⟩) (hnone microseconds)
      rw [hdelayLoud hkeyword, if_neg Bool.false_ne_true, if_pos (hkeyword_eq hkeyword), hdelay]
  | @send keyword opcode hkeyword hnames =>
      obtain ⟨c, hhead, hc⟩ := hnames.exists_head?
      have hne : keyword ≠ delayKeyword := by
        rintro rfl
        exact not_names_delayKeyword opcode hnames
      rw [hloud (hkeyword.not_isSilent hhead hc), if_neg Bool.false_ne_true,
        hkeyword_eq hkeyword, if_neg hne, ofKeyword?_eq_some_iff.mpr hnames]
  | @unknownKeyword keyword hspeaks hkeyword hdelay hcommand =>
      have hopcode : Opcode.ofKeyword? keyword = none := by
        cases hopcode : Opcode.ofKeyword? keyword with
        | none => rfl
        | some opcode => exact absurd (ofKeyword?_eq_some_iff.mp hopcode) (hcommand opcode)
      rw [hloud hspeaks, if_neg Bool.false_ne_true, hkeyword_eq hkeyword, if_neg hdelay, hopcode]

/-- **Lines are read by their grammar.**  A line comes to what its text without
    blanks asks for; to every text exactly one rule applies with one result,
    and it has one keyword. -/
theorem statements_follow_grammar (number : Nat) (raw : Text) :
    (∀ result, (Line.ofRaw number raw).statement = result ↔ Asks (compact raw) result)
      ∧ (∃! result, Asks (compact raw) result)
      ∧ ∃! keyword, HasKeyword (compact raw) keyword := by
  refine ⟨?_, ⟨_, asks_statement number raw, ?_⟩, ⟨_, hasKeyword_iff.mpr rfl, ?_⟩⟩
  · intro result
    constructor
    · rintro rfl
      exact asks_statement number raw
    · exact Asks.statement_eq
  · intro result h
    exact h.statement_eq.symm
  · intro keyword h
    exact (hasKeyword_iff.mp h).symm

/-- The name of a command with more behind it is another keyword. -/
example : (Line.ofRaw 1 " Send_RESET_SC_ACQ_NOW ( 0 )".toList).statement
    = .error (.unknownKeyword "Send_RESET_SC_ACQ_NOW".toList) := by
  decide

end Telecommand.Script
