import Telecommand.Command.Encoding
import Telecommand.Proofs.Text.Lines
import Telecommand.Proofs.Text.Numeral
import Mathlib.Data.List.Forall2

/-! # Argument lists

    A call reads back as its arguments, whatever stands before its opening
    parenthesis and after its closing one (`arguments_call`), and nothing
    else has arguments (`arguments_eq_ok_iff`, `arguments_eq_error_iff`).
    Each argument is then read by itself, in order: the reading succeeds with
    the value of each (`readEach_eq_ok_iff`), or fails with the refusal of
    the first one that does not read (`readEach_eq_error_iff`). -/

namespace Telecommand.Command

/-! ## Calls -/

/-- That a text has an argument list, and which arguments are in it: they
    stand between the first opening parenthesis and the first closing one
    after it, with commas between them.  One empty argument is none. -/
def HasArguments (raw : Text) (args : List Text) : Prop :=
  ∃ front back, raw = front ++ '(' :: [','].intercalate args ++ ')' :: back
    ∧ '(' ∉ front ∧ (∀ arg ∈ args, ',' ∉ arg ∧ ')' ∉ arg) ∧ args ≠ [[]]

/-- That a text has no argument list: no parenthesis opens in it, or none
    closes after the first one that opens. -/
def LacksArguments (raw : Text) : Prop :=
  '(' ∉ raw ∨ ∃ front opened, raw = front ++ '(' :: opened ∧ '(' ∉ front ∧ ')' ∉ opened

/-- The arguments of a call are what its parentheses hold between commas.
    A single empty argument is the one list that cannot be told from no
    argument at all. -/
theorem arguments_call {front : Text} {args : List Text} (back : Text)
    (hfront : '(' ∉ front) (hargs : ∀ arg ∈ args, ',' ∉ arg ∧ ')' ∉ arg)
    (hempty : args ≠ [[]]) :
    arguments (front ++ '(' :: [','].intercalate args ++ ')' :: back) = .ok args := by
  have hclose : ')' ∉ [','].intercalate args :=
    Text.notMem_intercalate (by decide) fun arg harg => (hargs arg harg).2
  have hopened : front ++ '(' :: [','].intercalate args ++ ')' :: back
      = front ++ '(' :: ([','].intercalate args ++ ')' :: back) := by
    simp
  -- both parentheses are the first of their kind where the reader looks for them
  simp only [arguments, hopened, Text.cut?_append _ hfront, Text.cut?_append _ hclose]
  by_cases hnil : args = []
  · rw [hnil]
    rfl
  · have hsplit := List.splitOn_intercalate ',' (fun arg harg => (hargs arg harg).1) hnil
    obtain ⟨c, rest, hjoin⟩ := List.exists_cons_of_ne_nil
      (Text.intercalate_ne_nil hnil hempty)
    rw [hjoin] at hsplit ⊢
    exact congrArg Except.ok hsplit

/-- A decimal numeral alone between the parentheses is the only argument. -/
theorem arguments_decimal {front digits : Text} (back : Text) (hfront : '(' ∉ front)
    (hdigits : Text.isDecimal digits = true) :
    arguments (front ++ '(' :: digits ++ ')' :: back) = .ok [digits] := by
  have hmark : ∀ c, Text.isHexDigit c = false → c ∉ digits := by
    intro c hc hmem
    rw [Text.isDecimal, Bool.and_eq_true, List.all_eq_true] at hdigits
    rw [Text.isHexDigit_of_isDigit (hdigits.2 c hmem)] at hc
    exact Bool.noConfusion hc
  have hargs : ∀ arg ∈ [digits], ',' ∉ arg ∧ ')' ∉ arg := by
    intro arg harg
    rw [List.mem_singleton.mp harg]
    exact ⟨hmark _ (by decide), hmark _ (by decide)⟩
  have hempty : [digits] ≠ [[]] := by
    intro h
    rw [List.singleton_inj.mp h] at hdigits
    exact Bool.noConfusion hdigits
  have hcall := arguments_call back hfront hargs hempty
  rwa [List.intercalate_singleton] at hcall

/-- The arguments that are found are those of the argument list. -/
theorem arguments_eq_ok_iff {raw : Text} {args : List Text} :
    arguments raw = .ok args ↔ HasArguments raw args := by
  constructor
  · intro h
    cases hopen : Text.cut? '(' raw with
    | none =>
        rw [arguments, hopen] at h
        cases h
    | some cut =>
        obtain ⟨front, opened⟩ := cut
        cases hclose : Text.cut? ')' opened with
        | none =>
            simp only [arguments, hopen, hclose] at h
            cases h
        | some cut =>
            obtain ⟨inner, back⟩ := cut
            have hraw : raw = front ++ '(' :: inner ++ ')' :: back := by
              rw [Text.eq_of_cut? hopen, Text.eq_of_cut? hclose, List.append_assoc,
                List.cons_append]
            have hfront := Text.notMem_of_cut? hopen
            have hinner := Text.notMem_of_cut? hclose
            simp only [arguments, hopen, hclose] at h
            cases inner with
            | nil =>
                obtain rfl : [] = args := Except.ok.inj h
                exact ⟨front, back, hraw, hfront, by simp, by simp⟩
            | cons c rest =>
                obtain rfl : (c :: rest).splitOn ',' = args := Except.ok.inj h
                have hjoin : [','].intercalate ((c :: rest).splitOn ',') = c :: rest :=
                  List.intercalate_splitOn ','
                refine ⟨front, back, by rw [hjoin]; exact hraw, hfront, ?_, ?_⟩
                · intro arg harg
                  refine ⟨Text.notMem_of_mem_splitOn harg, ?_⟩
                  intro hmem
                  exact hinner (hjoin ▸ Text.mem_intercalate harg hmem)
                · intro hempty
                  rw [hempty] at hjoin
                  exact absurd hjoin (List.cons_ne_nil c rest).symm
  · rintro ⟨front, back, rfl, hfront, hargs, hempty⟩
    exact arguments_call back hfront hargs hempty

/-- Arguments are not found only where there is no argument list. -/
theorem arguments_eq_error_iff {raw : Text} {refusal : Refusal} :
    arguments raw = .error refusal ↔ LacksArguments raw ∧ refusal = .noArgumentList := by
  constructor
  · intro h
    cases hopen : Text.cut? '(' raw with
    | none =>
        rw [arguments, hopen] at h
        exact ⟨.inl (Text.cut?_eq_none_iff.mp hopen), (Except.error.inj h).symm⟩
    | some cut =>
        obtain ⟨front, opened⟩ := cut
        cases hclose : Text.cut? ')' opened with
        | none =>
            simp only [arguments, hopen, hclose] at h
            exact ⟨.inr ⟨front, opened, Text.eq_of_cut? hopen, Text.notMem_of_cut? hopen,
              Text.cut?_eq_none_iff.mp hclose⟩, (Except.error.inj h).symm⟩
        | some cut =>
            obtain ⟨inner, back⟩ := cut
            simp only [arguments, hopen, hclose] at h
            cases inner with
            | nil => cases h
            | cons c rest => cases h
  · rintro ⟨hraw | ⟨front, opened, rfl, hfront, hopened⟩, rfl⟩
    · rw [arguments, Text.cut?_eq_none_iff.mpr hraw]
    · simp only [arguments, Text.cut?_append opened hfront, Text.cut?_eq_none_iff.mpr hopened]

/-- Every text has an argument list or lacks it. -/
theorem lacksArguments_or_hasArguments (raw : Text) :
    LacksArguments raw ∨ ∃ args, HasArguments raw args := by
  cases h : arguments raw with
  | error refusal => exact .inl (arguments_eq_error_iff.mp h).1
  | ok args => exact .inr ⟨args, arguments_eq_ok_iff.mp h⟩

/-- There is one argument list at most. -/
theorem HasArguments.unique {raw : Text} {args args' : List Text} (h : HasArguments raw args)
    (h' : HasArguments raw args') : args = args' := by
  have hfound := arguments_eq_ok_iff.mpr h
  rw [arguments_eq_ok_iff.mpr h'] at hfound
  exact (Except.ok.inj hfound).symm

theorem HasArguments.opens {raw : Text} {args : List Text} (h : HasArguments raw args) :
    '(' ∈ raw := by
  obtain ⟨front, back, rfl, -⟩ := h
  simp

/-- Whatever stands behind an argument list is no part of it. -/
theorem HasArguments.append {raw : Text} {args : List Text} (h : HasArguments raw args)
    (extra : Text) : HasArguments (raw ++ extra) args := by
  obtain ⟨front, back, rfl, hfront, hargs, hempty⟩ := h
  refine ⟨front, back ++ extra, ?_, hfront, hargs, hempty⟩
  rw [List.append_assoc, List.cons_append]

/-- The arguments that are found stay the same with more text behind them. -/
theorem HasArguments.arguments_append {raw : Text} {args : List Text} (h : HasArguments raw args)
    (extra : Text) : arguments (raw ++ extra) = arguments raw := by
  rw [arguments_eq_ok_iff.mpr h, arguments_eq_ok_iff.mpr (h.append extra)]

/-- A text has an argument list as soon as a parenthesis closes in it behind
    one that opens. -/
theorem exists_hasArguments_iff {raw : Text} :
    (∃ args, HasArguments raw args)
      ↔ ∃ front inner back, raw = front ++ '(' :: inner ++ ')' :: back := by
  constructor
  · rintro ⟨args, front, back, hraw, -⟩
    exact ⟨front, _, back, hraw⟩
  · rintro ⟨front, inner, back, rfl⟩
    refine (lacksArguments_or_hasArguments _).resolve_left ?_
    rintro (hopen | ⟨early, opened, hraw, hearly, hclose⟩)
    · exact hopen (by simp)
    · -- the first parenthesis that opens is this one, or stands in front of it
      rw [List.append_assoc, List.cons_append] at hraw
      rcases List.append_eq_append_iff.mp hraw with ⟨between, rfl, hrest⟩ | ⟨between, -, hrest⟩
      · cases between with
        | nil =>
            obtain ⟨-, rfl⟩ := List.cons.inj hrest
            exact hclose (by simp)
        | cons c rest =>
            obtain ⟨rfl, -⟩ := List.cons.inj hrest
            exact hearly (by simp)
      · cases between with
        | nil =>
            obtain ⟨-, rfl⟩ := List.cons.inj hrest
            exact hclose (by simp)
        | cons c rest =>
            obtain ⟨-, rfl⟩ := List.cons.inj hrest
            exact hclose (by simp)

/-! ## Reading in order -/

variable {α β : Type} {read : Nat → α → Except Refusal β}

theorem readEach_cons {position : Nat} {arg : α} {rest : List α} {value : β} {values : List β}
    (hvalue : read position arg = .ok value)
    (hvalues : readEach read (position + 1) rest = .ok values) :
    readEach read position (arg :: rest) = .ok (value :: values) := by
  rw [readEach]
  exact bind_eq_ok_iff.mpr ⟨value, hvalue, bind_eq_ok_iff.mpr ⟨values, hvalues, rfl⟩⟩

/-- Where every argument reads, each value comes from its own argument. -/
theorem readEach_eq_ok {position : Nat} {args : List α} {values : List β}
    (h : readEach read position args = .ok values) :
    List.Forall₂ (fun arg value => ∃ place, read place arg = .ok value) args values := by
  induction args generalizing position values with
  | nil =>
      have hnil : [] = values := Except.ok.inj h
      rw [← hnil]
      exact .nil
  | cons arg rest ih =>
      rw [readEach] at h
      obtain ⟨value, hvalue, h⟩ := bind_eq_ok_iff.mp h
      obtain ⟨others, hothers, h⟩ := bind_eq_ok_iff.mp h
      have hcons : value :: others = values := Except.ok.inj h
      rw [← hcons]
      exact .cons ⟨position, hvalue⟩ (ih hothers)

/-- **Reading succeeds with the value of each argument**, if it does not matter
    for a value at which place its argument stands. -/
theorem readEach_eq_ok_iff {Good : α → β → Prop}
    (hread : ∀ place arg value, read place arg = .ok value ↔ Good arg value)
    {position : Nat} {args : List α} {values : List β} :
    readEach read position args = .ok values ↔ List.Forall₂ Good args values := by
  constructor
  · intro h
    refine (readEach_eq_ok h).imp ?_
    rintro arg value ⟨place, hvalue⟩
    exact (hread place arg value).mp hvalue
  · intro h
    induction h generalizing position with
    | nil => rfl
    | cons hvalue _ ih => exact readEach_cons ((hread position _ _).mpr hvalue) ih

/-- Arguments read as the values of what they denote, if it does not matter for
    a value at which place its argument stands. -/
theorem readEach_of_forall₂ {γ : Type} {Good : α → γ → Prop} {value : γ → β}
    (hread : ∀ place arg c, Good arg c → read place arg = .ok (value c)) {position : Nat}
    {args : List α} {meanings : List γ} (h : List.Forall₂ Good args meanings) :
    readEach read position args = .ok (meanings.map value) := by
  induction h generalizing position with
  | nil => rfl
  | cons hmeaning _ ih => exact readEach_cons (hread position _ _ hmeaning) ih

/-- **Reading fails at the first argument that does not read**, with the refusal
    of this argument at its place. -/
theorem readEach_eq_error_iff {position : Nat} {args : List α} {refusal : Refusal} :
    readEach read position args = .error refusal
      ↔ ∃ earlier arg later, args = earlier ++ arg :: later
        ∧ (∃ values, readEach read position earlier = .ok values)
        ∧ read (position + earlier.length) arg = .error refusal := by
  induction args generalizing position with
  | nil =>
      constructor
      · intro h
        cases h
      · rintro ⟨earlier, arg, later, hargs, -⟩
        exact absurd hargs.symm (by simp)
  | cons first rest ih =>
      rw [readEach, bind_eq_error_iff]
      constructor
      · rintro (hfirst | ⟨value, hvalue, h⟩)
        · exact ⟨[], first, rest, rfl, ⟨[], rfl⟩, hfirst⟩
        · rcases bind_eq_error_iff.mp h with hrest | ⟨values, -, h⟩
          · obtain ⟨earlier, arg, later, rfl, ⟨values, hvalues⟩, hrefusal⟩ := ih.mp hrest
            refine ⟨first :: earlier, arg, later, rfl,
              ⟨value :: values, readEach_cons hvalue hvalues⟩, ?_⟩
            rw [List.length_cons, ← Nat.add_assoc, Nat.add_right_comm]
            exact hrefusal
          · cases h
      · rintro ⟨earlier, arg, later, hargs, ⟨values, hvalues⟩, hrefusal⟩
        cases earlier with
        | nil =>
            obtain ⟨rfl, -⟩ := List.cons.inj hargs
            exact .inl hrefusal
        | cons other earlier =>
            obtain ⟨rfl, hrest⟩ := List.cons.inj hargs
            rw [readEach] at hvalues
            obtain ⟨value, hvalue, hvalues⟩ := bind_eq_ok_iff.mp hvalues
            obtain ⟨others, hothers, -⟩ := bind_eq_ok_iff.mp hvalues
            rw [List.length_cons, ← Nat.add_assoc, Nat.add_right_comm] at hrefusal
            exact .inr ⟨value, hvalue, bind_eq_error_iff.mpr (.inl (ih.mpr
              ⟨earlier, arg, later, hrest, ⟨others, hothers⟩, hrefusal⟩))⟩

end Telecommand.Command
