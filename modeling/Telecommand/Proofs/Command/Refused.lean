import Telecommand.Proofs.Command.Acceptance

/-! # Commands that are refused

    A command is refused for the first thing that is wrong with it: it has no
    argument list, or another number of arguments than its shape takes, or an
    argument that its slot does not accept behind others that it does.
    `Refused` has a rule for each, with the refusal; `Slot.Refuses` says what
    is reported of an argument.  A command is refused exactly by these rules
    (`refusal_is_of_first_fault`), so on a list with several bad arguments
    only the first of them counts. -/

namespace Telecommand.Command

variable {slot : Slot} {args : List Text} {arg raw : Text} {place : Nat} {refusal : Refusal}

/-! ## The first bad argument -/

/-- That an argument is the first one in a list that its slot does not accept,
    and its place, counted from zero. -/
structure FirstBad (slot : Slot) (args : List Text) (place : Nat) (arg : Text) : Prop where
  /-- The argument stands at the place. -/
  getElem?_eq : args[place]? = some arg
  /-- The slot does not accept it. -/
  not_accepts : ¬ slot.Accepts arg
  /-- The slot accepts whatever stands at an earlier place. -/
  accepts_earlier : ∀ other ∈ args.take place, slot.Accepts other

/-- What the slot accepts, and then an argument that it does not accept, and
    then anything. -/
theorem firstBad_append {earlier later : List Text}
    (hearlier : ∀ other ∈ earlier, slot.Accepts other) (hbad : ¬ slot.Accepts arg) :
    FirstBad slot (earlier ++ arg :: later) earlier.length arg where
  getElem?_eq := by rw [List.getElem?_append_right (Nat.le_refl _), Nat.sub_self]; rfl
  not_accepts := hbad
  accepts_earlier := by rwa [List.take_left]

/-- A list is what stands before its first bad argument, this argument, and
    the rest. -/
theorem FirstBad.eq_append (h : FirstBad slot args place arg) :
    args = args.take place ++ arg :: args.drop (place + 1) ∧ (args.take place).length = place := by
  obtain ⟨hplace, harg⟩ := List.getElem?_eq_some_iff.mp h.getElem?_eq
  refine ⟨?_, List.length_take_of_le (Nat.le_of_lt hplace)⟩
  rw [← harg, ← List.drop_eq_getElem_cons hplace, List.take_append_drop]

/-- **Arguments of a shape are refused at the first bad one.** -/
theorem Shape.encode_eq_error_iff_firstBad {shape : Shape}
    (hcount : args.length = shape.argumentCount) :
    shape.encode args = .error refusal
      ↔ ∃ place arg, FirstBad (shape.slot (args.headD [])) args place arg
        ∧ (shape.slot (args.headD [])).Refuses (place + 1) arg refusal := by
  rw [encode_eq_error_iff hcount]
  constructor
  · rintro ⟨earlier, arg, later, hargs, hearlier, hrefuses⟩
    refine ⟨earlier.length, arg, ?_, by rwa [Nat.add_comm]⟩
    rw [hargs] at hearlier hrefuses ⊢
    exact firstBad_append hearlier hrefuses.not_accepts
  · rintro ⟨place, arg, hfirst, hrefuses⟩
    obtain ⟨hargs, hlength⟩ := hfirst.eq_append
    refine ⟨args.take place, arg, args.drop (place + 1), hargs, hfirst.accepts_earlier, ?_⟩
    rwa [hlength, Nat.add_comm]

/-! ## Commands -/

/-- Why a command of a shape is refused, and what is reported. -/
inductive Refused (shape : Shape) (raw : Text) : Refusal → Prop
  /-- No parenthesis opens, or none closes after the first one that opens. -/
  | noArgumentList (hlacks : LacksArguments raw) : Refused shape raw .noArgumentList
  /-- There are more or fewer arguments than the shape takes. -/
  | wrongArgumentCount {args : List Text} (hargs : HasArguments raw args)
      (hcount : args.length ≠ shape.argumentCount) :
      Refused shape raw (.wrongArgumentCount shape.argumentCount args.length)
  /-- There are as many arguments as the shape takes, and an argument is the
      first bad one. -/
  | badArgument {args : List Text} {place : Nat} {arg : Text} {refusal : Refusal}
      (hargs : HasArguments raw args) (hcount : args.length = shape.argumentCount)
      (hfirst : FirstBad (shape.slot (args.headD [])) args place arg)
      (hrefuses : (shape.slot (args.headD [])).Refuses (place + 1) arg refusal) :
      Refused shape raw refusal

/-- **A command is refused for the first thing that is wrong with it**, and for
    nothing else. -/
theorem refusal_is_of_first_fault (opcode : Opcode) (raw : Text) (refusal : Refusal) :
    opcode.encode raw = .error refusal ↔ Refused opcode.shape raw refusal := by
  constructor
  · intro h
    rcases lacksArguments_or_hasArguments raw with hlacks | ⟨args, hargs⟩
    · rw [encode_of_lacksArguments hlacks] at h
      obtain rfl : .noArgumentList = refusal := Except.error.inj h
      exact .noArgumentList hlacks
    · by_cases hcount : args.length = opcode.shape.argumentCount
      · rw [encode_of_hasArguments hargs hcount,
          Shape.encode_eq_error_iff_firstBad hcount] at h
        obtain ⟨place, arg, hfirst, hrefuses⟩ := h
        exact .badArgument hargs hcount hfirst hrefuses
      · rw [encode_of_argumentCount_ne hargs hcount] at h
        obtain rfl : .wrongArgumentCount _ args.length = refusal := Except.error.inj h
        exact .wrongArgumentCount hargs hcount
  · intro h
    cases h with
    | noArgumentList hlacks => exact encode_of_lacksArguments hlacks
    | wrongArgumentCount hargs hcount => exact encode_of_argumentCount_ne hargs hcount
    | badArgument hargs hcount hfirst hrefuses =>
        rw [encode_of_hasArguments hargs hcount]
        exact (Shape.encode_eq_error_iff_firstBad hcount).mpr ⟨_, _, hfirst, hrefuses⟩

/-- Of four bad arguments the first one is reported, whatever is wrong with the
    others. -/
example : Opcode.setTime.encode "SET_TIME(1,x100,zz,,x,7)".toList
    = .error (.badHexLiteral 2 "x100".toList (.tooWide 8)) := by
  decide

end Telecommand.Command
