import Telecommand.Path.Basic
import Telecommand.Proofs.Basic

/-! # Paths and their parents

    A path that is put together from components has these components as its
    steps (`steps_ofComponents`).  So the parent of a path that ends in a
    name takes the steps in front of the name, but for pieces that stay
    where they are (`parent?_of_steps`). -/

namespace Telecommand

/-! ## Pieces -/

namespace Name

theorem text_inj {a b : Name} : a.text = b.text ↔ a = b := by
  rw [Name.mk.injEq]

theorem text_ne_nil (name : Name) : name.text ≠ [] := by
  have h := name.isEntryName_text
  simp only [isEntryName, Bool.and_eq_true, decide_eq_true_eq] at h
  exact h.1.1.1

theorem text_ne_here (name : Name) : name.text ≠ "." := by
  have h := name.isEntryName_text
  simp only [isEntryName, Bool.and_eq_true, decide_eq_true_eq] at h
  exact h.1.1.2

theorem text_ne_up (name : Name) : name.text ≠ ".." := by
  have h := name.isEntryName_text
  simp only [isEntryName, Bool.and_eq_true, decide_eq_true_eq] at h
  exact h.1.2

theorem slash_notMem_text (name : Name) : '/' ∉ name.text := by
  have h := name.isEntryName_text
  simp only [isEntryName, Bool.and_eq_true, decide_eq_true_eq] at h
  exact h.2

end Name

theorem Path.sameAs_self (path : Path) : path.sameAs path = true := by
  simp [Path.sameAs]

/-- The piece of a step asks for this step. -/
theorem Step.ofPiece?_pieceOf {step : Step} (h : step ≠ .slash) :
    Step.ofPiece? (Path.pieceOf step) = some step := by
  cases step with
  | here => rfl
  | up => rfl
  | slash => exact absurd rfl h
  | name name =>
      show Step.ofPiece? name.text = some (.name name)
      rw [Step.ofPiece?, if_neg name.text_ne_here, if_neg name.text_ne_up, Name.ofText?,
        dif_pos name.isEntryName_text]
      rfl

/-- No piece asks for a slash. -/
theorem Step.ne_slash_of_ofPiece? {piece : Text} {step : Step}
    (h : Step.ofPiece? piece = some step) : step ≠ .slash := by
  rintro rfl
  rw [Step.ofPiece?] at h
  split at h
  · cases h
  · split at h
    · cases h
    · obtain ⟨name, -, hname⟩ := Option.map_eq_some_iff.mp h
      cases hname

/-- The piece that asks for a step is the step in print. -/
theorem Step.pieceOf_of_ofPiece? {piece : Text} {step : Step}
    (h : Step.ofPiece? piece = some step) : Path.pieceOf step = piece := by
  rw [Step.ofPiece?] at h
  split at h
  · rename_i hdot
    rw [← Option.some.inj h, hdot]
    rfl
  · split at h
    · rename_i hdots
      rw [← Option.some.inj h, hdots]
      rfl
    · obtain ⟨name, hname, rfl⟩ := Option.map_eq_some_iff.mp h
      rw [Name.ofText?] at hname
      split at hname
      · rw [← Option.some.inj hname]
        rfl
      · cases hname

namespace Path

theorem pieceOf_ne_nil {step : Step} (h : step ≠ .slash) : pieceOf step ≠ [] := by
  cases step with
  | here => decide
  | up => decide
  | name name => exact name.text_ne_nil
  | slash => exact absurd rfl h

theorem slash_notMem_pieceOf (step : Step) : '/' ∉ pieceOf step := by
  cases step with
  | here => decide
  | up => decide
  | name name => exact name.slash_notMem_text
  | slash => decide

/-! ## Paths of components -/

variable {components : List Step}

theorem ofPiece?_map_pieceOf (h : ∀ step ∈ components, step ≠ .slash) :
    (components.map pieceOf).filterMap Step.ofPiece? = components := by
  induction components with
  | nil => rfl
  | cons step rest ih =>
      rw [List.map_cons, List.filterMap_cons, Step.ofPiece?_pieceOf (h step List.mem_cons_self),
        ih fun s hs => h s (List.mem_cons_of_mem step hs)]

/-- A path of components takes them as its steps. -/
theorem steps_ofComponents (absolute : Bool) (hne : components ≠ [])
    (h : ∀ step ∈ components, step ≠ .slash) :
    (ofComponents absolute components).steps = components := by
  have hsplit : (['/'].intercalate (components.map pieceOf)).splitOn '/'
      = components.map pieceOf := by
    refine List.splitOn_intercalate '/' ?_ (by simpa using hne)
    intro piece hpiece
    obtain ⟨step, -, rfl⟩ := List.mem_map.mp hpiece
    exact slash_notMem_pieceOf step
  have hpieces : (ofComponents absolute components).pieces.filterMap Step.ofPiece?
      = components := by
    cases absolute with
    | false =>
        rw [pieces, ofComponents, if_neg (by decide), List.nil_append, hsplit,
          ofPiece?_map_pieceOf h]
    | true =>
        -- the slash in front makes an empty piece, which asks for nothing
        show (('/' :: ['/'].intercalate (components.map pieceOf)).splitOn '/').filterMap
          Step.ofPiece? = components
        rw [List.splitOn_cons_eq_if_modifyHead, if_pos (by decide), hsplit, List.filterMap_cons,
          ofPiece?_map_pieceOf h]
        rfl
  have hlast : (ofComponents absolute components).text.getLast? ≠ some '/' := by
    obtain ⟨front, last, rfl⟩ : ∃ front last, components = front ++ [last] :=
      ⟨_, _, (List.dropLast_concat_getLast hne).symm⟩
    have hnonempty := pieceOf_ne_nil (h last (by simp))
    have hend := Text.getLast?_intercalate '/' (front.map pieceOf) hnonempty
    rw [ofComponents, List.map_append, List.map_singleton, List.getLast?_append, hend]
    intro hslash
    cases hpiece : (pieceOf last).getLast? with
    | none => exact hnonempty (List.getLast?_eq_none_iff.mp hpiece)
    | some c =>
        rw [hpiece, Option.some_or] at hslash
        rw [Option.some.inj hslash] at hpiece
        exact slash_notMem_pieceOf last (List.mem_of_getLast? hpiece)
  rw [steps, hpieces, if_neg hlast, List.append_nil]

theorem text_ofComponents_ne_nil (absolute : Bool) (hne : components ≠ [])
    (h : ∀ step ∈ components, step ≠ .slash) : (ofComponents absolute components).text ≠ [] := by
  intro hempty
  rw [← steps_ofComponents absolute hne h, steps, pieces, hempty] at hne
  exact hne rfl

/-- A path of components starts at the root if it is told to. -/
theorem isAbsolute_ofComponents (absolute : Bool) (hne : components ≠ [])
    (h : ∀ step ∈ components, step ≠ .slash) :
    (ofComponents absolute components).isAbsolute = absolute := by
  cases absolute with
  | true => rfl
  | false =>
      obtain ⟨first, rest, rfl⟩ := List.exists_cons_of_ne_nil hne
      obtain ⟨c, text, hpiece⟩ :=
        List.exists_cons_of_ne_nil (pieceOf_ne_nil (h first List.mem_cons_self))
      have hc : c ≠ '/' := by
        rintro rfl
        exact slash_notMem_pieceOf first (hpiece ▸ List.mem_cons_self)
      have hhead : (['/'].intercalate ((first :: rest).map pieceOf)).head? = some c := by
        rw [List.map_cons, hpiece]
        cases rest with
        | nil => rfl
        | cons second others =>
            rw [List.map_cons, List.intercalate_cons_of_ne_nil (List.cons_ne_nil _ _)]
            rfl
      rw [isAbsolute, ofComponents, if_neg (by decide), List.nil_append, hhead]
      simpa using hc

/-- A path of components has a zero byte only in one of them. -/
theorem hasZeroByte_ofComponents (absolute : Bool)
    (h : ∀ step ∈ components, '\x00' ∉ pieceOf step) :
    (ofComponents absolute components).hasZeroByte = false := by
  have hpieces : '\x00' ∉ ['/'].intercalate (components.map pieceOf) := by
    refine Text.notMem_intercalate (by decide) ?_
    intro piece hpiece
    obtain ⟨step, hstep, rfl⟩ := List.mem_map.mp hpiece
    exact h step hstep
  rw [hasZeroByte, decide_eq_false_iff_not, ofComponents, List.mem_append, not_or]
  refine ⟨?_, hpieces⟩
  cases absolute <;> decide

/-! ## Parents -/

variable {path : Path} {front : List Step} {name : Name}

/-- The steps of a path are those of its pieces when they end in a name. -/
theorem ofPiece?_pieces_of_steps (h : path.steps = front ++ [.name name]) :
    path.pieces.filterMap Step.ofPiece? = front ++ [.name name] := by
  rw [steps] at h
  by_cases hslash : path.text.getLast? = some '/'
  · -- a slash at the end would be the last step
    rw [if_pos hslash] at h
    have hlast := congrArg List.getLast? h
    rw [List.getLast?_concat, List.getLast?_concat] at hlast
    cases hlast
  · rwa [if_neg hslash, List.append_nil] at h

/-- A path that ends in a name has the name at its end.  Its parent takes the
    steps in front of it, where pieces that stay count at most at the
    start. -/
theorem parent?_of_steps (h : path.steps = front ++ [.name name]) :
    path.fileName? = some name
      ∧ ∃ start, (start = [] ∨ start = [.here])
        ∧ path.parent?
            = some (ofComponents path.isAbsolute (start ++ front.filter (· ≠ .here))) := by
  have hpieces := ofPiece?_pieces_of_steps h
  -- of the steps in front of the name, only those that stay are no components
  have hmoves (isMove : Step → Bool)
      (hisMove : ∀ step, step ≠ .slash → isMove step = decide (step ≠ .here)) :
      path.steps.filter isMove = front.filter (· ≠ .here) ++ [.name name] := by
    have hname : [Step.name name].filter isMove = [.name name] :=
      List.filter_cons_of_pos (hisMove (.name name) Step.noConfusion)
    rw [h, List.filter_append, hname]
    congr 1
    refine List.filter_congr ?_
    intro step hstep
    have hmem : step ∈ path.pieces.filterMap Step.ofPiece? := by
      rw [hpieces]
      exact List.mem_append_left _ hstep
    obtain ⟨piece, -, hpiece⟩ := List.mem_filterMap.mp hmem
    exact hisMove step (Step.ne_slash_of_ofPiece? hpiece)
  obtain ⟨start, hstart, hcomponents⟩ : ∃ start, (start = [] ∨ start = [.here])
      ∧ path.components = start ++ front.filter (· ≠ .here) ++ [.name name] := by
    rw [components, hmoves]
    · by_cases hhead : path.pieces.head? = some "."
      · exact ⟨[.here], .inr rfl, if_pos hhead⟩
      · exact ⟨[], .inl rfl, if_neg hhead⟩
    · intro step hslash
      cases step with
      | slash => exact absurd rfl hslash
      | _ => rfl
  refine ⟨?_, start, hstart, ?_⟩
  · rw [fileName?, hcomponents, List.getLast?_concat]
  · rw [parent?, hcomponents, if_neg (by simp), List.dropLast_concat]

/-- A path without a zero byte has none in any of its pieces. -/
theorem zeroByte_notMem_pieceOf (hzero : path.hasZeroByte = false) {step : Step}
    (h : step ∈ path.pieces.filterMap Step.ofPiece?) : '\x00' ∉ pieceOf step := by
  intro hmem
  obtain ⟨piece, hpiece, hstep⟩ := List.mem_filterMap.mp h
  rw [Step.pieceOf_of_ofPiece? hstep] at hmem
  have hpath : '\x00' ∈ path.text := by
    rw [← @List.intercalate_splitOn _ path.text _ _ '/']
    exact Text.mem_intercalate hpiece hmem
  rw [hasZeroByte, decide_eq_false_iff_not] at hzero
  exact hzero hpath

end Path

end Telecommand
